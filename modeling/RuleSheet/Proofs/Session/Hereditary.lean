import RuleSheet.Proofs.Expression
import RuleSheet.Session

/-!
# Properties that statements inherit

A statement is put together from few primitive activities: it records events, and it reads
and writes accessors of its table. A property of activities that these have and that
sequencing keeps is a property of every statement.
-/
namespace RuleSheet
variable {W : Type}

namespace Act

/-- A property of activities that holds of the primitive ones and that sequencing keeps. -/
structure Hereditary (t : Table W) (C : (α : Type) → Act W α → Prop) : Prop where
  pure {α : Type} (x : α) : C α (Pure.pure x)
  bind {α β : Type} {m : Act W α} {f : α → Act W β} : C α m → (∀ x, C β (f x)) → C β (m >>= f)
  record (e : Event) : C Unit (record e)
  read {k : String} {a : Accessor W} : t.find? k = some (.accessor a) → C Float a.read
  write {k : String} {a : Accessor W} (x : Float) :
    t.find? k = some (.accessor a) → C Unit (a.write x)

variable {t : Table W} {C : (α : Type) → Act W α → Prop}

theorem Hereditary.map (hC : Hereditary t C) {α β : Type} {m : Act W α} (hm : C α m)
    (g : α → β) : C β (g <$> m) := by
  rw [map_eq_pure_bind]
  exact hC.bind hm fun x => hC.pure (g x)

theorem Hereditary.recordPrinted (hC : Hereditary t C) (xs : List Float) :
    C Unit (recordPrinted xs) := by
  induction xs with
  | nil => exact hC.pure ()
  | cons x rest ih => exact hC.bind (hC.record (.printed x)) fun _ => ih

theorem Hereditary.resolve (hC : Hereditary t C) (name : String) :
    C (Option Float) (t.resolve name) := by
  unfold Table.resolve
  split
  · exact hC.pure _
  · exact hC.pure _
  · exact hC.pure _
  · rename_i a ha
    exact hC.bind (hC.read ha) fun _ => hC.pure _

theorem Hereditary.attempt (hC : Hereditary t C) :
    Attempt.Hereditary t fun _ m => C _ m.run where
  pure x := hC.pure _
  throw e := hC.pure _
  bind hm hf := by
    rw [ExceptT.run_bind]
    refine hC.bind hm fun answer => ?_
    split
    · exact hf _
    · exact hC.pure _
  resolve n := hC.map (hC.resolve n) Except.ok
  printed xs := hC.map (hC.recordPrinted xs) Except.ok

end Act

namespace Session
variable {s : Session W} {C : (α : Type) → Act W α → Prop}

theorem hereditary_store (hC : Act.Hereditary s.table C) (x : Float) (target : Target) :
    C _ (s.store x target) := by
  cases target with
  | declaration name =>
      rw [store]
      cases s.table.declare name x with
      | error e => exact hC.pure _
      | ok table => exact hC.bind (hC.record _) fun _ => hC.pure _
  | symbol name =>
      rw [store]
      refine hC.bind ?_ fun answer => ?_
      · unfold Table.assign
        split
        · exact hC.pure _
        · rename_i a ha
          exact hC.bind (hC.write x ha) fun _ => hC.pure _
        · exact hC.pure _
        · exact hC.pure _
      · cases answer with
        | error e => exact hC.pure _
        | ok table => exact hC.bind (hC.record _) fun _ => hC.pure _

theorem hereditary_evaluate (hC : Act.Hereditary s.table C) (statement : String) :
    C _ (s.evaluate statement) := by
  have hvalue (cs : List Char) :=
    Expression.hereditary_value hC.attempt s.settings.autoBalance cs
  unfold evaluate
  split
  · exact hC.bind (hvalue statement.toList) fun _ => hC.pure _
  · rename_i left right _
    split
    · exact hC.pure _
    · unfold assign
      cases s.target left with
      | error e => exact hC.pure _
      | ok target =>
          refine hC.bind (hvalue right) fun answer => ?_
          cases answer with
          | error e => exact hC.pure _
          | ok x => exact hereditary_store hC x target

end Session
end RuleSheet
