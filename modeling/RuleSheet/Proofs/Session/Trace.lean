import RuleSheet.Proofs.Postfix.Offending
import RuleSheet.Proofs.Session.Effect

/-!
# The calls of a statement

A statement whose left side is refused calls no accessor. Any other evaluates plain
expressions one after the other: the condition of a choice, and then what was chosen. Each of
them calls the getters that its tokens name, up to the first token that cannot be taken. If
the expression has a value in the end and the left side is an accessor, its setter is called
with that value, once and after all getters.
-/
namespace RuleSheet
variable {W : Type}

/-- The faults that are found before anything is evaluated. -/
def StatementError.isRefusal : StatementError → Bool
  | multipleAssignment _ => true
  | e => e.isOfTarget

namespace Expression

/-- The side of a choice that is chosen if its condition has the value `x`. -/
def chosen (x : Float) (yes no : List Char) : List Char :=
  if Number.holds x then yes else no

/-- The plain expressions that are evaluated for an expression, in order: each condition, and
then what is chosen by its value. -/
def pieces (t : Table W) (autoBalance : Bool) (cs : List Char) (h : Host W) :
    List (List Char) :=
  match _hq : splitQuestion cs with
  | none => [cs]
  | some (condition, branches) =>
      match _hc : splitColon 0 branches with
      | none => []
      | some (yes, no) =>
          match (plainValue t autoBalance condition).outcome h with
          | (.error _, _) => [condition]
          | (.ok x, k) => condition :: pieces t autoBalance (chosen x yes no) k
termination_by cs.length
decreasing_by
  obtain ⟨hyes, hno⟩ := sides_length _hq _hc
  unfold chosen
  split
  · exact hyes
  · exact hno

/-- The getters that are called for an expression, in order. -/
def gets (t : Table W) (autoBalance : Bool) (cs : List Char) (h : Host W) : List (AccessorCall W) :=
  (pieces t autoBalance cs h).flatMap fun piece => Token.gets t (Token.scan autoBalance piece)

/-- A plain expression calls the getters that its tokens name. -/
theorem agrees_plainValue (t : Table W) (autoBalance : Bool) (cs : List Char) (h : Host W) :
    ((plainValue t autoBalance cs).outcome h).2.Agrees
      (h.replay (Token.gets t (Token.scan autoBalance cs))) := by
  obtain ⟨_, hcalls⟩ := Postfix.fault?_ofTokens t (Token.scan autoBalance cs) h
  unfold plainValue
  rw [Attempt.outcome_bind]
  rcases hout : (Postfix.ofTokens t (Token.scan autoBalance cs)).outcome h with ⟨e | items, k⟩
  · rw [hout] at hcalls
    rw [← hcalls]
    exact .refl k
  · rw [hout] at hcalls
    rw [← hcalls]
    dsimp only
    rw [Attempt.outcome_lift_bind]
    have hprinted := Act.agrees_recordPrinted (Postfix.run items []).2 k
    cases (Postfix.run items []).1 with
    | ok x => exact hprinted
    | error e => exact hprinted

theorem agrees_value (t : Table W) (autoBalance : Bool) (cs : List Char) (h : Host W) :
    ((value t autoBalance cs).outcome h).2.Agrees (h.replay (gets t autoBalance cs h)) := by
  unfold gets
  fun_induction pieces t autoBalance cs h with
  | case1 cs h hq =>
      rw [value_plain (splitQuestion_eq_none_iff.mp hq), List.flatMap_singleton]
      exact agrees_plainValue t autoBalance cs h
  | case2 cs h condition branches hq hc =>
      rw [value_missing hq hc]
      exact .refl h
  | case3 cs h condition branches hq yes no hc e k hout =>
      have hcondition := agrees_plainValue t autoBalance condition h
      rw [value_choice hq hc, Attempt.outcome_bind, List.flatMap_singleton]
      rw [hout] at hcondition ⊢
      exact hcondition
  | case4 cs h condition branches hq yes no hc x k hout ih =>
      have hcondition := agrees_plainValue t autoBalance condition h
      rw [value_choice hq hc, Attempt.outcome_bind, List.flatMap_cons, Host.replay_append]
      rw [hout] at hcondition ⊢
      dsimp only
      rw [← apply_ite (value t autoBalance)]
      exact ih.trans (hcondition.replay _)

theorem isRefusal_of_firstFault? {t : Table W} {before tokens : List Token}
    {e : StatementError} (h : Token.firstFault? t before tokens = some e) :
    e.isRefusal = false := by
  induction tokens generalizing before with
  | nil => cases h
  | cons token rest ih =>
      rw [Token.firstFault?] at h
      cases hfault : token.fault? t before with
      | none =>
          rw [hfault] at h
          exact ih h
      | some f =>
          rw [hfault] at h
          obtain rfl := Option.some.inj h
          unfold Token.fault? at hfault
          split at hfault
          all_goals try split at hfault
          all_goals cases hfault
          all_goals rfl

theorem isRefusal_of_plainValue {t : Table W} {autoBalance : Bool} {cs : List Char} {h : Host W}
    {e : StatementError} (he : ((plainValue t autoBalance cs).outcome h).1 = .error e) :
    e.isRefusal = false := by
  obtain ⟨hfault, _⟩ := Postfix.fault?_ofTokens t (Token.scan autoBalance cs) h
  unfold plainValue at he
  rw [Attempt.outcome_bind] at he
  rcases hout : (Postfix.ofTokens t (Token.scan autoBalance cs)).outcome h with ⟨f | items, k⟩
  · rw [hout] at he hfault
    obtain rfl := Except.error.inj he
    rcases Option.or_eq_some_iff.mp hfault.symm with hfirst | ⟨_, hopen⟩
    · exact isRefusal_of_firstFault? hfirst
    · split at hopen
      · cases hopen
        rfl
      · cases hopen
  · rw [hout] at he
    dsimp only at he
    rw [Attempt.outcome_lift_bind] at he
    cases hrun : (Postfix.run items []).1 with
    | ok x =>
        rw [hrun] at he
        cases he
    | error f =>
        rw [hrun] at he
        obtain rfl := Except.error.inj he
        rw [Postfix.eq_malformed_of_run hrun]
        rfl

theorem isRefusal_of_value {t : Table W} {autoBalance : Bool} {cs : List Char} {h : Host W}
    {e : StatementError} (he : ((value t autoBalance cs).outcome h).1 = .error e) :
    e.isRefusal = false := by
  induction cs using choice_induction generalizing h with
  | plain cs hplain =>
      rw [value_plain hplain] at he
      exact isRefusal_of_plainValue he
  | missing cs condition branches hq hc =>
      rw [value_missing hq hc] at he
      cases he
      rfl
  | choice cs condition branches yes no hq hc ihYes ihNo =>
      rw [value_choice hq hc, Attempt.outcome_bind] at he
      rcases hout : (plainValue t autoBalance condition).outcome h with ⟨f | x, k⟩
      · rw [hout] at he
        obtain rfl := Except.error.inj he
        exact isRefusal_of_plainValue (congrArg Prod.fst hout)
      · rw [hout] at he
        dsimp only at he
        split at he
        · exact ihYes he
        · exact ihNo he

end Expression

namespace Session

/-- The accessor that a left side names. -/
def Target.accessor? (t : Table W) : Target → Option (Accessor W)
  | .declaration _ => none
  | .symbol name =>
      match t.get name with
      | some (.accessor a) => some a
      | _ => none

/-- What a statement evaluates, and its left side, if it has one. Nothing is evaluated if
there is a second equals sign, or if the left side does not pass its checks. -/
def evaluated? (s : Session W) (statement : String) : Option (List Char × Option Target) :=
  match splitEquals statement.toList with
  | none => some (statement.toList, none)
  | some (left, right) =>
      if '=' ∈ right then none
      else
        match s.target left with
        | .error _ => none
        | .ok target => some (right, some target)

/-- The call of the setter of the left side, if what is evaluated has a value. -/
def sets (s : Session W) (target : Option Target) :
    Except StatementError Float → List (AccessorCall W)
  | .ok x => ((target.bind (Target.accessor? s.table)).map (AccessorCall.set · x)).toList
  | .error _ => []

/-- The calls of accessors that a statement makes, in order. -/
def calls (s : Session W) (statement : String) (h : Host W) : List (AccessorCall W) :=
  match s.evaluated? statement with
  | none => []
  | some (expression, target) =>
      Expression.gets s.table s.settings.autoBalance expression h ++
        s.sets target ((Expression.value s.table s.settings.autoBalance expression).outcome h).1

variable {s : Session W} {statement : String}

theorem run_evaluate_none (hn : s.evaluated? statement = none) (h : Host W) :
    ∃ e, (s.evaluate statement).run h = ((.error e, s), h) ∧ e.isRefusal = true := by
  unfold evaluated? at hn
  split at hn
  · cases hn
  · rename_i left right hs
    split at hn
    · rename_i hr
      exact ⟨_, congrArg (·.run h) (evaluate_multiple hs hr), rfl⟩
    · rename_i hr
      split at hn
      · rename_i e ht
        refine ⟨e, ?_, ?_⟩
        · rw [evaluate_sides hs hr, assign, ht]
          rfl
        · have he := isOfTarget_of_target ht
          cases e <;> first | rfl | exact he
      · cases hn

/-- What a statement evaluates gives its answer, and the value is stored if there is a left
side. -/
theorem run_evaluate_some {expression : List Char} {target : Option Target}
    (hsome : s.evaluated? statement = some (expression, target)) {h j : Host W}
    {answer : Except StatementError Float}
    (hv : (Expression.value s.table s.settings.autoBalance expression).outcome h = (answer, j)) :
    (∀ side ∈ target, side.Writable s.table) ∧
      (s.evaluate statement).run h =
        match answer, target with
        | .ok x, some side => (s.store x side).run j
        | answer, _ => ((answer, s), j) := by
  unfold evaluated? at hsome
  split at hsome
  · rename_i hs
    cases hsome
    refine ⟨by simp, ?_⟩
    have hrun : (s.evaluate statement).run h = ((answer, s), j) := by
      rw [evaluate_none hs]
      exact congrArg (fun out => ((out.1, s), out.2)) hv
    cases answer with
    | error e => exact hrun
    | ok x => exact hrun
  · rename_i left right hs
    split at hsome
    · cases hsome
    · rename_i hr
      split at hsome
      · cases hsome
      · rename_i side ht
        cases hsome
        refine ⟨fun _ hside => Option.some.inj hside ▸ writable_of_target ht, ?_⟩
        rw [evaluate_sides hs hr, run_assign ht hv]
        cases answer with
        | error e => rfl
        | ok x => rfl

theorem agrees_store {target : Target} (hw : target.Writable s.table) (x : Float) (j : Host W) :
    ((s.store x target).run j).1.1 = .ok x ∧
      ((s.store x target).run j).2.Agrees (j.replay (s.sets (some target) (.ok x))) := by
  rw [sets, Option.bind_some]
  cases target with
  | declaration name =>
      rw [run_store_declaration hw x j]
      exact ⟨rfl, Act.agrees_record rfl j⟩
  | symbol name =>
      rw [Target.accessor?, Table.get]
      rcases hw with ⟨y, hy⟩ | ⟨a, ha⟩
      · rw [run_store_variable hy x j, hy]
        exact ⟨rfl, Act.agrees_record rfl j⟩
      · rw [run_store_accessor ha x j, ha, List.append_cons]
        exact ⟨rfl, Act.agrees_record rfl (j.call (.set a x))⟩

/-- After what it evaluates a statement does nothing but call the setter, and it fails only if
there is no value. -/
theorem agrees_sets {expression : List Char} {target : Option Target}
    (hsome : s.evaluated? statement = some (expression, target)) {h j : Host W}
    {answer : Except StatementError Float}
    (hv : (Expression.value s.table s.settings.autoBalance expression).outcome h = (answer, j)) :
    ((s.evaluate statement).run h).2.Agrees (j.replay (s.sets target answer)) ∧
      ∀ e, ((s.evaluate statement).run h).1.1 = .error e → answer = .error e := by
  obtain ⟨hw, hrun⟩ := run_evaluate_some hsome hv
  rw [hrun]
  cases answer with
  | error e => exact ⟨.refl j, fun _ he => he⟩
  | ok x =>
      cases target with
      | none => exact ⟨.refl j, fun _ he => he⟩
      | some side =>
          obtain ⟨hok, hstore⟩ := agrees_store (hw side rfl) x j
          refine ⟨hstore, fun e he => ?_⟩
          rw [hok] at he
          cases he

/-- A statement makes these calls and no others. It is refused exactly when it evaluates
nothing, and then it makes none. -/
theorem agrees_evaluate (s : Session W) (statement : String) (h : Host W) :
    let out := (s.evaluate statement).run h
    out.2.Agrees (h.replay (s.calls statement h)) ∧
      ((∃ e, out.1.1 = .error e ∧ e.isRefusal = true) ↔ s.evaluated? statement = none) := by
  intro out
  rw [calls]
  cases hsome : s.evaluated? statement with
  | none =>
      obtain ⟨e, hrun, hrefusal⟩ := run_evaluate_none hsome h
      rw [show out = _ from hrun]
      exact ⟨.refl h, fun _ => rfl, fun _ => ⟨e, rfl, hrefusal⟩⟩
  | some parts =>
      obtain ⟨expression, target⟩ := parts
      have hgets := Expression.agrees_value s.table s.settings.autoBalance expression h
      rcases hv : (Expression.value s.table s.settings.autoBalance expression).outcome h
        with ⟨answer, j⟩
      obtain ⟨hsets, herror⟩ := agrees_sets hsome hv
      rw [hv] at hgets
      dsimp only
      rw [hv, Host.replay_append]
      refine ⟨hsets.trans (hgets.replay _), ?_, fun hn => by cases hn⟩
      rintro ⟨e, he, hrefusal⟩
      have hvalue := Expression.isRefusal_of_value ((congrArg Prod.fst hv).trans (herror e he))
      rw [hrefusal] at hvalue
      cases hvalue

/-- The condition of a choice and what is chosen read a counter, and the value is written. Where
a name is not known, nothing more is read, and nothing is written. -/
example :
    let h : Host Nat := ⟨0, []⟩
    let x : Accessor Nat := ⟨"x", fun w => (Float.ofNat w, w + 1), fun _ w => w⟩
    let y : Accessor Nat := ⟨"y", fun w => (0, w), fun _ w => w + 10⟩
    let s := (((create {} : Session Nat).register "x" x).run h).1.2
    let s' := ((s.register "y" y).run h).1.2
    let shown : AccessorCall Nat → String × Option Float
      | .get a => (a.label, none)
      | .set a v => (a.label, some v)
    (s'.calls "y = x ? 0 : x + x" h).map shown =
        [("x", none), ("x", none), ("x", none), ("y", some 3)] ∧
      ((s'.evaluate "y = x ? 0 : x + x").run h).2.world = 13 ∧
      (s'.calls "y = x + z + x" h).map shown = [("x", none)] ∧
      ((s'.evaluate "y = x + z + x").run h).2.world = 1 := by
  decide +kernel

end Session
end RuleSheet
