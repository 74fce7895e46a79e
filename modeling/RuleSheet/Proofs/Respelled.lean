import RuleSheet.Proofs.Choice
import RuleSheet.Proofs.Token.Written

/-!
# Blanks and letter case in expressions

The signs of a choice are looked for in the text as it is written, and each piece is then
normalized by itself. No character becomes such a sign, and the signs stay as they are, so
a text is cut where its normal form is cut. Two texts with the same normal form are
therefore evaluated alike: they make the same calls and have the same value, or fail for
the same reason. Only an error that quotes the text tells them apart.
-/
namespace RuleSheet
open Token
variable {W α β : Type}

/-- The error without the text that it quotes. -/
def StatementError.unquoted : StatementError → StatementError
  | missingTernaryBranch _ => missingTernaryBranch ""
  | e => e

namespace Attempt

/-- The attempts do the same on every host and give the same answer, but an error may quote
another text. -/
def AlikeUnquoted (m n : Attempt W α) : Prop :=
  ∀ h, (m.outcome h).2 = (n.outcome h).2 ∧
    (m.outcome h).1.mapError StatementError.unquoted =
      (n.outcome h).1.mapError StatementError.unquoted

theorem AlikeUnquoted.refl (m : Attempt W α) : AlikeUnquoted m m :=
  fun _ => ⟨rfl, rfl⟩

theorem AlikeUnquoted.bind (m : Attempt W α) {f g : α → Attempt W β}
    (h : ∀ x, AlikeUnquoted (f x) (g x)) : AlikeUnquoted (m >>= f) (m >>= g) := by
  intro host
  rw [outcome_bind, outcome_bind]
  obtain ⟨answer | x, k⟩ := m.outcome host
  · exact ⟨rfl, rfl⟩
  · exact h x k

end Attempt

namespace Expression

theorem splitColon_append_of_not_mem {p : List Char} (hquestion : '?' ∉ p) (hcolon : ':' ∉ p)
    (depth : Nat) (cs : List Char) :
    splitColon depth (p ++ cs) =
      (splitColon depth cs).map fun (before, after) => (p ++ before, after) := by
  induction p with
  | nil => simp
  | cons c rest ih =>
      rw [List.mem_cons, not_or] at hquestion hcolon
      rw [List.cons_append, splitColon, if_neg (fun h => hcolon.1 h.1.symm),
        if_neg (Ne.symm hquestion.1), if_neg (Ne.symm hcolon.1)]
      dsimp only
      rw [ih hquestion.2 hcolon.2, Option.map_map]
      rfl

@[simp] theorem splitColon_normalize (depth : Nat) (cs : List Char) :
    splitColon depth (normalize cs) =
      (splitColon depth cs).map (Prod.map normalize normalize) := by
  induction cs generalizing depth with
  | nil => rfl
  | cons c rest ih =>
      rw [← List.singleton_append, normalize_append]
      by_cases hsign : c = '?' ∨ c = ':'
      · have hself : normalize [c] = [c] := by
          rcases hsign with rfl | rfl
          · decide +kernel
          · decide +kernel
        have hcons (before : List Char) : normalize (c :: before) = c :: normalize before := by
          rw [← List.singleton_append, normalize_append, hself, List.singleton_append]
        rw [hself, List.singleton_append, List.singleton_append, splitColon, splitColon]
        by_cases hfound : c = ':' ∧ depth = 0
        · rw [if_pos hfound, if_pos hfound]
          rfl
        · rw [if_neg hfound, if_neg hfound]
          dsimp only
          rw [ih, Option.map_map, Option.map_map]
          refine congrArg (Option.map · _) (funext fun sides => ?_)
          exact congrArg (·, normalize sides.2) (hcons sides.1).symm
      · obtain ⟨hquestion, hcolon⟩ := not_or.mp hsign
        have hnone : '?' ∉ [c] ∧ ':' ∉ [c] :=
          ⟨by simpa using Ne.symm hquestion, by simpa using Ne.symm hcolon⟩
        rw [splitColon_append_of_not_mem
            (fun h => hnone.1 (mem_of_mem_normalize (by decide) (by decide) h))
            (fun h => hnone.2 (mem_of_mem_normalize (by decide) (by decide) h)),
          splitColon_append_of_not_mem hnone.1 hnone.2, ih, Option.map_map, Option.map_map]
        refine congrArg (Option.map · _) (funext fun sides => ?_)
        exact congrArg (·, normalize sides.2) (normalize_append [c] sides.1).symm

@[simp] theorem splitQuestion_normalize (cs : List Char) :
    splitQuestion (normalize cs) = (splitQuestion cs).map (Prod.map normalize normalize) := by
  cases hq : splitQuestion cs with
  | none =>
      rw [splitQuestion_eq_none_iff] at hq
      exact splitQuestion_eq_none_iff.mpr fun h =>
        hq (mem_of_mem_normalize (by decide) (by decide) h)
  | some sides =>
      obtain ⟨condition, branches⟩ := sides
      rw [splitQuestion_eq_some_iff] at hq
      have hself : normalize ['?'] = ['?'] := by decide +kernel
      have hcut : normalize cs = normalize condition ++ '?' :: normalize branches := by
        rw [hq.1, normalize_append, ← List.singleton_append, normalize_append, hself]
        rfl
      exact splitQuestion_eq_some_iff.mpr ⟨hcut, fun h =>
        hq.2 (mem_of_mem_normalize (by decide) (by decide) h)⟩

section
variable {as bs : List Char}

theorem splitQuestion_congr (h : normalize as = normalize bs) :
    (splitQuestion as).map (Prod.map normalize normalize) =
      (splitQuestion bs).map (Prod.map normalize normalize) := by
  rw [← splitQuestion_normalize, h, splitQuestion_normalize]

theorem splitColon_congr (h : normalize as = normalize bs) (depth : Nat) :
    (splitColon depth as).map (Prod.map normalize normalize) =
      (splitColon depth bs).map (Prod.map normalize normalize) := by
  rw [← splitColon_normalize, h, splitColon_normalize]

theorem plainValue_congr (h : normalize as = normalize bs) (t : Table W) (autoBalance : Bool) :
    plainValue t autoBalance as = plainValue t autoBalance bs := by
  unfold plainValue scan
  rw [h]

/-- Texts with the same normal form are evaluated alike. The induction is on the choices of
one of them, and at each step the other is cut at the same place. -/
theorem value_alike (t : Table W) (autoBalance : Bool) (h : normalize as = normalize bs) :
    (value t autoBalance as).AlikeUnquoted (value t autoBalance bs) := by
  induction as using choice_induction generalizing bs with
  | plain as hq =>
      have hcut := splitQuestion_congr h
      rw [splitQuestion_eq_none_iff.mpr hq] at hcut
      have hplain := splitQuestion_eq_none_iff.mp (Option.map_eq_none_iff.mp hcut.symm)
      rw [value_plain hq, value_plain hplain, plainValue_congr h]
      exact .refl _
  | missing as condition branches hq hc =>
      have hcut := splitQuestion_congr h
      rw [hq] at hcut
      obtain ⟨⟨condition', branches'⟩, hq', hsame⟩ := Option.map_eq_some_iff.mp hcut.symm
      have hcolon := splitColon_congr (Prod.mk.inj hsame).2 0
      rw [hc] at hcolon
      rw [value_missing hq hc, value_missing hq' (Option.map_eq_none_iff.mp hcolon)]
      exact fun _ => ⟨rfl, rfl⟩
  | choice as condition branches yes no hq hc ihYes ihNo =>
      have hcut := splitQuestion_congr h
      rw [hq] at hcut
      obtain ⟨⟨condition', branches'⟩, hq', hsame⟩ := Option.map_eq_some_iff.mp hcut.symm
      obtain ⟨hcondition, hbranches⟩ := Prod.mk.inj hsame
      have hcolon := splitColon_congr hbranches 0
      rw [hc] at hcolon
      obtain ⟨⟨yes', no'⟩, hc', hsides⟩ := Option.map_eq_some_iff.mp hcolon
      obtain ⟨hyes, hno⟩ := Prod.mk.inj hsides
      rw [value_choice hq hc, value_choice hq' hc', plainValue_congr hcondition.symm]
      refine .bind _ fun x => ?_
      by_cases hx : Number.holds x = true
      · rw [if_pos hx, if_pos hx]
        exact ihYes hyes.symm
      · rw [if_neg hx, if_neg hx]
        exact ihNo hno.symm

end

end Expression

namespace Session

/-- Two texts that are the same once blanks are dropped and each character is lowered are
evaluated alike, whatever choices stand in them: the same getters are called in the same
order, the same numbers are printed, and the answer is the same value or the same error, but
for the text that a missing colon quotes. -/
theorem evaluateExpression_respelled (s : Session W) {a b : String}
    (h : normalize a.toList = normalize b.toList) :
    (s.evaluateExpression a).AlikeUnquoted (s.evaluateExpression b) :=
  Expression.value_alike s.table s.settings.autoBalance h

theorem evaluateExpression_respelled_nested :
    let s : Session Unit := create {}
    let a := "PI - 3 ? 0 ? SQRT 4 : Tau : 1"
    let b := "pi-3?0?sqrt4:t a u:1"
    normalize a.toList = normalize b.toList ∧
      (s.evaluateExpression a).AlikeUnquoted (s.evaluateExpression b) := by
  intro s a b
  have h : normalize a.toList = normalize b.toList := by decide +kernel
  exact ⟨h, evaluateExpression_respelled s h⟩

end Session
end RuleSheet
