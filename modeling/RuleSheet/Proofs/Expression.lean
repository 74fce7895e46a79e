import RuleSheet.Expression
import RuleSheet.Proofs.Postfix.Piece
import RuleSheet.Proofs.Text.Cut

/-!
# The stages of an expression

An expression without a question mark is plain. A choice evaluates its condition and
then the side that was chosen. These equations are what later proofs use in place of
the definition by recursion on the length of the text. Evaluation as a whole only
observes the outside.
-/
namespace RuleSheet.Expression
variable {W : Type}

theorem splitQuestion_eq_cut (cs : List Char) : splitQuestion cs = Text.cut '?' cs := by
  induction cs with
  | nil => rfl
  | cons c rest ih => rw [splitQuestion, Text.cut, ih]

theorem splitQuestion_eq_none_iff {cs : List Char} : splitQuestion cs = none ↔ '?' ∉ cs := by
  rw [splitQuestion_eq_cut, Text.cut_eq_none_iff]

theorem splitQuestion_eq_some_iff {cs before after : List Char} :
    splitQuestion cs = some (before, after) ↔ cs = before ++ '?' :: after ∧ '?' ∉ before := by
  rw [splitQuestion_eq_cut, Text.cut_eq_some_iff]

theorem value_plain {cs : List Char} (h : '?' ∉ cs) (t : Table W) (autoBalance : Bool) :
    value t autoBalance cs = plainValue t autoBalance cs := by
  rw [value]
  split
  · rfl
  · rename_i hq
    rw [splitQuestion_eq_none_iff.mpr h] at hq
    simp at hq

theorem value_missing {cs condition branches : List Char}
    (hq : splitQuestion cs = some (condition, branches)) (hc : splitColon 0 branches = none)
    (t : Table W) (autoBalance : Bool) :
    value t autoBalance cs = throw (.missingTernaryBranch (String.ofList (Text.trim cs))) := by
  rw [value]
  split
  · simp_all
  · rename_i c b hcb
    obtain ⟨rfl, rfl⟩ : c = condition ∧ b = branches := by simpa [hcb] using hq
    split
    · rfl
    · rename_i h
      rw [hc] at h
      simp at h

theorem value_choice {cs condition branches yes no : List Char}
    (hq : splitQuestion cs = some (condition, branches))
    (hc : splitColon 0 branches = some (yes, no)) (t : Table W) (autoBalance : Bool) :
    value t autoBalance cs = (do
      let x ← plainValue t autoBalance condition
      if Number.holds x then value t autoBalance yes else value t autoBalance no) := by
  rw [value]
  split
  · simp_all
  · rename_i c b hcb
    obtain ⟨rfl, rfl⟩ : c = condition ∧ b = branches := by simpa [hcb] using hq
    split
    · rename_i h
      rw [hc] at h
      simp at h
    · rename_i y n h
      obtain ⟨rfl, rfl⟩ : y = yes ∧ n = no := by simpa [h] using hc
      generalize sides_length hcb h = shorter
      obtain ⟨_, _⟩ := shorter
      rfl

theorem outcome_plainValue {t : Table W} {autoBalance : Bool} {cs : List Char} {x : Float}
    {h k : Host W} :
    (plainValue t autoBalance cs).outcome h = (.ok x, k) ↔
      ∃ items j, (Postfix.ofTokens t (Token.scan autoBalance cs)).outcome h = (.ok items, j) ∧
        Postfix.value items = .ok x ∧
        k = ((Act.recordPrinted (Postfix.printed items) : Act W Unit).run j).2 := by
  unfold plainValue
  rw [Attempt.outcome_bind_ok]
  refine exists_congr fun items => exists_congr fun j => and_congr_right fun _ => ?_
  unfold Postfix.value Postfix.printed
  obtain ⟨answer | answer, printed⟩ := Postfix.run items []
  · refine iff_of_false (fun hx => ?_) (by simp)
    obtain ⟨u, i, _, hx⟩ := Attempt.outcome_bind_ok.mp hx
    exact absurd (congrArg Prod.fst hx) (by simp)
  · constructor
    · intro hx
      obtain ⟨u, i, hu, hx⟩ := Attempt.outcome_bind_ok.mp hx
      rw [Attempt.outcome_pure, Prod.mk.injEq] at hx
      exact ⟨hx.1, hx.2.symm.trans (congrArg Prod.snd hu).symm⟩
    · intro hboth
      rcases hboth with ⟨hx, rfl⟩
      exact Attempt.outcome_bind_ok.mpr ⟨(), _, rfl, congrArg (·, _) hx⟩

theorem hereditary_plainValue {t : Table W} {C : (α : Type) → Attempt W α → Prop}
    (hC : Attempt.Hereditary t C) (autoBalance : Bool) (cs : List Char) :
    C Float (plainValue t autoBalance cs) := by
  refine hC.bind (Postfix.hereditary_ofTokens hC _) fun items => ?_
  refine hC.bind (hC.printed _) fun _ => ?_
  cases (Postfix.run items []).1 with
  | ok x => exact hC.pure x
  | error e => exact hC.throw e

/-- What holds of all texts without a question mark or without the colon for it, and of a
choice once it holds of both its sides, holds of every text. -/
theorem choice_induction {P : List Char → Prop} (plain : ∀ cs, '?' ∉ cs → P cs)
    (missing : ∀ cs condition branches, splitQuestion cs = some (condition, branches) →
      splitColon 0 branches = none → P cs)
    (choice : ∀ cs condition branches yes no, splitQuestion cs = some (condition, branches) →
      splitColon 0 branches = some (yes, no) → P yes → P no → P cs)
    (cs : List Char) : P cs := by
  induction hlength : cs.length using Nat.strongRecOn generalizing cs with
  | ind n ih =>
      subst hlength
      cases hq : splitQuestion cs with
      | none => exact plain cs (splitQuestion_eq_none_iff.mp hq)
      | some sides =>
          cases hc : splitColon 0 sides.2 with
          | none => exact missing cs sides.1 sides.2 hq hc
          | some branches =>
              have hshort := sides_length hq hc
              exact choice cs sides.1 sides.2 branches.1 branches.2 hq hc
                (ih _ hshort.1 _ rfl) (ih _ hshort.2 _ rfl)

theorem hereditary_value {t : Table W} {C : (α : Type) → Attempt W α → Prop}
    (hC : Attempt.Hereditary t C) (autoBalance : Bool) (cs : List Char) :
    C Float (value t autoBalance cs) := by
  induction cs using choice_induction with
  | plain cs hplain =>
      rw [value_plain hplain]
      exact hereditary_plainValue hC autoBalance cs
  | missing cs condition branches hq hc =>
      rw [value_missing hq hc]
      exact hC.throw _
  | choice cs condition branches yes no hq hc ihYes ihNo =>
      rw [value_choice hq hc]
      refine hC.bind (hereditary_plainValue hC autoBalance condition) fun x => ?_
      split
      · exact ihYes
      · exact ihNo

theorem tries_value (t : Table W) (autoBalance : Bool) (cs : List Char) :
    t.Tries (value t autoBalance cs) :=
  hereditary_value (Attempt.hereditary_tries t) autoBalance cs

end RuleSheet.Expression
