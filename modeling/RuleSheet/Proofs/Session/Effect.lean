import Mathlib.Logic.ExistsUnique
import RuleSheet.Session
import RuleSheet.Proofs.Expression
import RuleSheet.Proofs.Symbols

/-!
# What a statement does

A statement either fails and leaves everything as it was, or it succeeds and has
exactly one effect: nothing but a value, a new variable, a new value for a variable,
or one call of one setter. The left side is checked before the right side is
evaluated, and what was checked still holds when the value is stored, because the
evaluation in between cannot change the table. Nothing fails after the right side has
its value.

The statement is about all sessions, reachable or not.
-/
namespace RuleSheet
variable {W : Type}

/-- The host after some events. -/
def Host.record (h : Host W) (events : List Event) : Host W :=
  { h with events := h.events ++ events }

/-- The faults of a left side: it names nothing that a value can be written to, and nothing
that can be declared. -/
def StatementError.isOfTarget : StatementError → Bool
  | invalidName _ | duplicateName _ | reservedName _ | constantAssignment _
  | undeclaredName _ => true
  | _ => false

namespace Session

theorem splitEquals_eq_cut (cs : List Char) : splitEquals cs = Text.cut '=' cs := by
  induction cs with
  | nil => rfl
  | cons c rest ih => rw [splitEquals, Text.cut, ih]

theorem splitEquals_eq_none_iff {cs : List Char} : splitEquals cs = none ↔ '=' ∉ cs := by
  rw [splitEquals_eq_cut, Text.cut_eq_none_iff]

theorem splitEquals_eq_some_iff {cs left right : List Char} :
    splitEquals cs = some (left, right) ↔ cs = left ++ '=' :: right ∧ '=' ∉ left := by
  rw [splitEquals_eq_cut, Text.cut_eq_some_iff]

def Target.name : Target → String
  | .declaration name | .symbol name => name

/-- The key that the left side of a statement stands for, if it passes its checks. -/
def named? (s : Session W) (statement : String) : Option String :=
  match splitEquals statement.toList with
  | none => none
  | some (left, _) =>
      match s.target left with
      | .ok target => some (Table.key target.name)
      | .error _ => none

/-- What a statement that succeeded has done. -/
inductive Effect (W : Type) where
  | nothing
  | declared (k : String)
  | replaced (k : String)
  | written (k : String) (a : Accessor W)

/-- The effect on the session and the host of a statement with the value `x`. In every
case the right side has been evaluated before, which only observes. -/
def Effect.Happened (s : Session W) (statement : String) (x : Float) (h : Host W)
    (s' : Session W) (h' : Host W) : Effect W → Prop
  | .nothing => '=' ∉ statement.toList ∧ s' = s ∧ s.table.Observes h h'
  | .declared k =>
      s.named? statement = some k ∧ s.table.find? k = none ∧ s'.settings = s.settings ∧
        s'.table.entries = s.table.entries ++ [(k, .variable x)] ∧
        ∃ name j, Table.key name = k ∧ s.table.Observes h j ∧ h' = j.record [.declared name x]
  | .replaced k =>
      s.named? statement = some k ∧ (∃ y, s.table.find? k = some (.variable y)) ∧
        s'.settings = s.settings ∧ s.table.Replaces k x s'.table ∧
        ∃ name j, s.table.Observes h j ∧ h' = j.record [.assigned name x]
  | .written k a =>
      s.named? statement = some k ∧ s.table.find? k = some (.accessor a) ∧ s' = s ∧
        ∃ name j, s.table.Observes h j ∧
          h' = ⟨a.set x j.world, j.events ++ [.set a.label x, .assigned name x]⟩

/-- The effects exclude one another: the left side and what its key stands for before
the statement decide which one it is. -/
theorem Effect.Happened.unique {s s' : Session W} {statement : String} {x : Float}
    {h h' : Host W} {f g : Effect W} (hf : f.Happened s statement x h s' h')
    (hg : g.Happened s statement x h s' h') : f = g := by
  have none_of_nothing (hn : '=' ∉ statement.toList) : s.named? statement = none := by
    rw [named?, splitEquals_eq_none_iff.mpr hn]
  cases f <;> cases g <;> simp only [Happened] at hf hg
  case nothing.nothing => rfl
  case declared.declared => rw [Option.some.inj (hf.1.symm.trans hg.1)]
  case replaced.replaced => rw [Option.some.inj (hf.1.symm.trans hg.1)]
  case written.written =>
    obtain rfl := Option.some.inj (hf.1.symm.trans hg.1)
    obtain ⟨rfl⟩ := Option.some.inj (hf.2.1.symm.trans hg.2.1)
    rfl
  all_goals
    exfalso
    first
    | exact absurd (none_of_nothing hf.1) (by simp [hg.1])
    | exact absurd (none_of_nothing hg.1) (by simp [hf.1])
    | obtain rfl := Option.some.inj (hf.1.symm.trans hg.1)
      simp_all

/-- The table can take a value for the left side. -/
def Target.Writable (t : Table W) : Target → Prop
  | .declaration name => t.find? (Table.key name) = none
  | .symbol name => (∃ y, t.find? (Table.key name) = some (.variable y)) ∨
      ∃ a, t.find? (Table.key name) = some (.accessor a)

theorem checkNewName_eq_ok_iff {s : Session W} {name : String} :
    s.checkNewName name = .ok () ↔
      (Builtin.isName name || name == s.settings.declarationKeyword) = false ∧
        Token.isIdentifier name = true ∧ s.table.find? (Table.key name) = none := by
  rw [checkNewName, Table.contains, Table.get]
  by_cases hreserved : (Builtin.isName name || name == s.settings.declarationKeyword) = true
  · rw [if_pos hreserved, hreserved]
    simp
  by_cases hname : Token.isIdentifier name = true
  · rw [if_neg hreserved, hname]
    simp [hreserved]
  · rw [if_neg hreserved, if_pos (by simpa using hname)]
    simp [hname]

theorem find?_of_checkNewName {s : Session W} {name : String}
    (h : s.checkNewName name = .ok ()) : s.table.find? (Table.key name) = none :=
  (checkNewName_eq_ok_iff.mp h).2.2

theorem isOfTarget_of_checkNewName {s : Session W} {name : String} {e : StatementError}
    (h : s.checkNewName name = .error e) : e.isOfTarget = true := by
  unfold checkNewName at h
  split at h
  · cases h
    rfl
  split at h
  · cases h
    rfl
  split at h
  · cases h
    rfl
  · cases h

theorem target_of_declaredName? {s : Session W} {left : List Char} {new : String}
    (hnew : s.declaredName? (fold left) = some new) :
    s.target left = (s.checkNewName new).map fun _ => .declaration new := by
  unfold Session.target
  dsimp only
  rw [hnew]
  dsimp only
  cases s.checkNewName new <;> rfl

/-- A left side that passes its checks is a new name that passes those for new names, or a
name that is found and is not that of a constant. -/
theorem target_cases {s : Session W} {left : List Char} {target : Target}
    (ht : s.target left = .ok target) :
    (∃ new, s.declaredName? (fold left) = some new ∧ target = .declaration new ∧
        s.checkNewName new = .ok ()) ∨
      ∃ symbol, s.declaredName? (fold left) = none ∧
        target = .symbol (String.ofList (fold left)) ∧
        s.table.get (String.ofList (fold left)) = some symbol ∧ ∀ y, symbol ≠ .constant y := by
  cases hnew : s.declaredName? (fold left) with
  | some new =>
      rw [target_of_declaredName? hnew] at ht
      cases hc : s.checkNewName new with
      | error e =>
          rw [hc] at ht
          cases ht
      | ok _ =>
          rw [hc] at ht
          cases ht
          exact .inl ⟨new, rfl, rfl, hc⟩
  | none =>
      unfold Session.target at ht
      dsimp only at ht
      rw [hnew] at ht
      dsimp only at ht
      split at ht
      · cases ht
      · cases ht
      · rename_i symbol hconstant hsymbol
        cases ht
        exact .inr ⟨symbol, rfl, rfl, hsymbol, fun y hy => hconstant y hy⟩

theorem isOfTarget_of_target {s : Session W} {left : List Char} {e : StatementError}
    (ht : s.target left = .error e) : e.isOfTarget = true := by
  cases hnew : s.declaredName? (fold left) with
  | some new =>
      rw [target_of_declaredName? hnew] at ht
      cases hc : s.checkNewName new with
      | ok _ =>
          rw [hc] at ht
          cases ht
      | error f =>
          rw [hc] at ht
          cases ht
          exact isOfTarget_of_checkNewName hc
  | none =>
      unfold Session.target at ht
      dsimp only at ht
      rw [hnew] at ht
      dsimp only at ht
      split at ht
      · cases ht
        rfl
      · cases ht
        rfl
      · cases ht

/-- Where the left side fails, it is for the sake of a name. -/
theorem isStructural_of_target {s : Session W} {left : List Char} {e : StatementError}
    (ht : s.target left = .error e) : e.isStructural = false := by
  have he := isOfTarget_of_target ht
  cases e with
  | invalidName | duplicateName | constantAssignment | undeclaredName | reservedName => rfl
  | _ => cases he

theorem checkNewName_of_target {s : Session W} {left : List Char} {name : String}
    (ht : s.target left = .ok (.declaration name)) : s.checkNewName name = .ok () := by
  rcases target_cases ht with ⟨new, _, hnew, hc⟩ | ⟨_, _, hsymbol, _⟩
  · cases hnew
    exact hc
  · cases hsymbol

theorem writable_of_target {s : Session W} {left : List Char} {target : Target}
    (ht : s.target left = .ok target) : target.Writable s.table := by
  rcases target_cases ht with ⟨name, _, rfl, hc⟩ | ⟨symbol, _, rfl, hs, hconstant⟩
  · exact find?_of_checkNewName hc
  · cases symbol with
    | constant y => exact absurd rfl (hconstant y)
    | «variable» y => exact .inl ⟨y, hs⟩
    | accessor a => exact .inr ⟨a, hs⟩

theorem named?_of_target {s : Session W} {statement : String} {left right : List Char}
    {target : Target} (hs : splitEquals statement.toList = some (left, right))
    (ht : s.target left = .ok target) :
    s.named? statement = some (Table.key target.name) := by
  rw [named?, hs]
  dsimp only
  rw [ht]

theorem run_store_declaration {s : Session W} {name : String}
    (hfree : s.table.find? (Table.key name) = none) (x : Float) (j : Host W) :
    (s.store x (.declaration name)).run j =
      ((.ok x, { s with table := s.table.add (Table.key name) (.variable x) hfree }),
        j.record [.declared name x]) := by
  rw [store, Table.declare, Table.insert]
  split
  next e he =>
    split at he
    · cases he
    · rename_i hsome
      rw [hfree] at hsome
      cases hsome
  next table he =>
    split at he
    · obtain rfl := Except.ok.inj he
      rfl
    · cases he

theorem run_store_variable {s : Session W} {name : String} {y : Float}
    (hy : s.table.find? (Table.key name) = some (.variable y)) (x : Float) (j : Host W) :
    (s.store x (.symbol name)).run j =
      ((.ok x, { s with table := s.table.store (Table.key name) x }),
        j.record [.assigned name x]) := by
  rw [store, Table.assign, Table.get, hy]
  rfl

theorem run_store_accessor {s : Session W} {name : String} {a : Accessor W}
    (ha : s.table.find? (Table.key name) = some (.accessor a)) (x : Float) (j : Host W) :
    (s.store x (.symbol name)).run j =
      ((.ok x, s), ⟨a.set x j.world, j.events ++ [.set a.label x, .assigned name x]⟩) := by
  rw [store, Table.assign, Table.get, ha]
  simp only [bind_assoc, StateT.run_bind, Accessor.run_write]
  change ((_, s), Host.mk _ (j.events ++ [_] ++ [_])) = _
  rw [List.append_assoc]
  rfl

/-- Storing a value does not fail once the left side is writable, and it has one effect. -/
theorem store_happened {s : Session W} {statement : String} {left right : List Char}
    {target : Target} (hs : splitEquals statement.toList = some (left, right))
    (ht : s.target left = .ok target) (x : Float) {h j : Host W} (hj : s.table.Observes h j) :
    ∃ (s' : Session W) (h' : Host W) (f : Effect W),
      (s.store x target).run j = ((.ok x, s'), h') ∧ f.Happened s statement x h s' h' := by
  have hn := named?_of_target hs ht
  have hw := writable_of_target ht
  cases target with
  | declaration name =>
      have hfree : s.table.find? (Table.key name) = none := hw
      exact ⟨_, _, .declared (Table.key name), run_store_declaration hfree x j, hn, hfree, rfl, rfl,
        name, j, rfl, hj, rfl⟩
  | symbol name =>
      rcases hw with ⟨y, hy⟩ | ⟨a, ha⟩
      · exact ⟨_, _, .replaced (Table.key name), run_store_variable hy x j, hn, ⟨y, hy⟩, rfl,
          Table.replaces_store hy x, name, j, hj, rfl⟩
      · exact ⟨s, _, .written (Table.key name) a, run_store_accessor ha x j, hn, ha, rfl,
          name, j, hj, rfl⟩

theorem evaluate_none {s : Session W} {statement : String}
    (hs : splitEquals statement.toList = none) :
    s.evaluate statement = do return (← (s.evaluateExpression statement).run, s) := by
  rw [evaluate, hs]

theorem evaluate_multiple {s : Session W} {statement : String} {left right : List Char}
    (hs : splitEquals statement.toList = some (left, right)) (hr : '=' ∈ right) :
    s.evaluate statement =
      return (.error (.multipleAssignment (String.ofList (Text.trim statement.toList))), s) := by
  rw [evaluate, hs]
  simp only [List.contains_iff_mem, hr, if_true]

theorem evaluate_sides {s : Session W} {statement : String} {left right : List Char}
    (hs : splitEquals statement.toList = some (left, right)) (hr : '=' ∉ right) :
    s.evaluate statement = s.assign left right := by
  rw [evaluate, hs]
  simp only [List.contains_iff_mem, hr, if_false]

/-- Once the left side has passed its checks, the right side is evaluated; if it has a value,
storing the value is all that is left to do. -/
theorem run_assign {s : Session W} {left right : List Char} {target : Target}
    (ht : s.target left = .ok target) {h j : Host W} {answer : Except StatementError Float}
    (hv : (Expression.value s.table s.settings.autoBalance right).outcome h = (answer, j)) :
    (s.assign left right).run h =
      match answer with
      | .error e => ((.error e, s), j)
      | .ok x => (s.store x target).run j := by
  unfold Attempt.outcome at hv
  rw [assign, ht]
  dsimp only
  rw [StateT.run_bind, hv]
  cases answer <;> rfl

/-- Every way in which a statement can end. -/
theorem evaluate_cases (s : Session W) (statement : String) (h : Host W) :
    (∃ e j, (s.evaluate statement).run h = ((.error e, s), j) ∧ s.table.Observes h j) ∨
    ∃ x s' h' f, (s.evaluate statement).run h = ((.ok x, s'), h') ∧
      Effect.Happened s statement x h s' h' f := by
  have observes (cs : List Char) := Expression.tries_value s.table s.settings.autoBalance cs h
  cases hs : splitEquals statement.toList with
  | none =>
      have ho := observes statement.toList
      have hrun : (s.evaluate statement).run h =
          ((((s.evaluateExpression statement).outcome h).1, s),
            ((s.evaluateExpression statement).outcome h).2) := by
        rw [evaluate_none hs]
        rfl
      change s.table.Observes h ((s.evaluateExpression statement).outcome h).2 at ho
      rcases hv : (s.evaluateExpression statement).outcome h with ⟨e | x, j⟩
      · rw [hv] at ho hrun
        exact .inl ⟨e, j, hrun, ho⟩
      · rw [hv] at ho hrun
        exact .inr ⟨x, s, j, .nothing, hrun, splitEquals_eq_none_iff.mp hs, rfl, ho⟩
  | some sides =>
      obtain ⟨left, right⟩ := sides
      by_cases hr : '=' ∈ right
      · left
        rw [evaluate_multiple hs hr]
        exact ⟨_, h, rfl, .refl s.table h⟩
      rw [evaluate_sides hs hr]
      cases ht : s.target left with
      | error e =>
          left
          rw [assign, ht]
          exact ⟨e, h, rfl, .refl s.table h⟩
      | ok target =>
          have ho := observes right
          rcases hv : (Expression.value s.table s.settings.autoBalance right).outcome h
            with ⟨e | x, j⟩
          · rw [hv] at ho
            exact .inl ⟨e, j, run_assign ht hv, ho⟩
          · rw [hv] at ho
            obtain ⟨s', h', f, hstore, hf⟩ := store_happened hs ht x ho
            exact .inr ⟨x, s', h', f, (run_assign ht hv).trans hstore, hf⟩

/-- A statement fails and changes nothing, or it succeeds with one effect. Once the left
side has passed its checks and the right side has a value, it succeeds. -/
theorem evaluate_effect (s : Session W) (statement : String) (h : Host W) :
    let out := (s.evaluate statement).run h
    (∀ e, out.1.1 = .error e → out.1.2 = s ∧ s.table.Observes h out.2) ∧
    (∀ x, out.1.1 = .ok x →
      ∃! f : Effect W, f.Happened s statement x h out.1.2 out.2) ∧
    ∀ left right target x j, splitEquals statement.toList = some (left, right) →
      '=' ∉ right → s.target left = .ok target →
      (Expression.value s.table s.settings.autoBalance right).outcome h = (.ok x, j) →
      out.1.1 = .ok x := by
  intro out
  refine ⟨?_, ?_, ?_⟩
  · intro e he
    rcases evaluate_cases s statement h with ⟨e', j, hout, hj⟩ | ⟨x, s', h', f, hout, _⟩
    · rw [show out = _ from hout]
      exact ⟨rfl, hj⟩
    · rw [show out = _ from hout] at he
      cases he
  · intro x hx
    rcases evaluate_cases s statement h with ⟨e', j, hout, hj⟩ | ⟨y, s', h', f, hout, hf⟩
    · rw [show out = _ from hout] at hx
      cases hx
    · rw [show out = _ from hout] at hx ⊢
      obtain rfl : y = x := Except.ok.inj hx
      exact ⟨f, hf, fun g hg => hg.unique hf⟩
  · intro left right target x j hs hr ht hv
    obtain ⟨s', h', f, hstore, _⟩ :=
      store_happened hs ht x (h := h) (j := j) (by
        have ho := Expression.tries_value s.table s.settings.autoBalance right h
        rwa [hv] at ho)
    rw [show out = (s.evaluate statement).run h from rfl, evaluate_sides hs hr,
      run_assign ht hv]
    dsimp only
    rw [hstore]

end Session
end RuleSheet
