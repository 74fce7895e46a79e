import RuleSheet.Proofs.Session.Hereditary

/-!
# Answers that do not depend on the world

A host may own values that stay the same: their getters go on answering what they have
answered, whatever getters and setters are called. The world itself may change with every
call. As far as such calls lead, evaluations and statements answer the same from every
world, and the record of events plays no part in what they answer.
-/
namespace RuleSheet
variable {W α β : Type}

namespace Act

/-- From all worlds in `P` the activity answers the same, and it does not leave `P`. -/
structure Alike (P : W → Prop) (m : Act W α) : Prop where
  answer : ∀ h k, P h.world → P k.world → (m.run h).1 = (m.run k).1
  stays : ∀ h, P h.world → P (m.run h).2.world

theorem Alike.pure (P : W → Prop) (x : α) : Alike P (Pure.pure x : Act W α) where
  answer _ _ _ _ := rfl
  stays _ hw := hw

/-- For two activities one after the other it is enough to look at the answers that the first
can give. -/
theorem Alike.bind {P : W → Prop} {m : Act W α} {f : α → Act W β} (hm : Alike P m)
    (hf : ∀ h, P h.world → Alike P (f (m.run h).1)) : Alike P (m >>= f) where
  answer h k hh hk := by
    rw [StateT.run_bind, StateT.run_bind]
    change ((f (m.run h).1).run (m.run h).2).1 = ((f (m.run k).1).run (m.run k).2).1
    rw [hm.answer k h hk hh]
    exact (hf h hh).answer _ _ (hm.stays h hh) (hm.stays k hk)
  stays h hh := (hf h hh).stays _ (hm.stays h hh)

theorem alike_record (P : W → Prop) (e : Event) : Alike P (record e) where
  answer _ _ _ _ := rfl
  stays _ hw := hw

end Act

namespace Table

/-- The worlds that calls of the table's getters and setters lead to. -/
inductive Touches (t : Table W) : W → W → Prop
  | done (w : W) : t.Touches w w
  | get {w v : W} {k : String} {a : Accessor W} :
      t.Touches w v → t.find? k = some (.accessor a) → t.Touches w (a.get v).2
  | set {w v : W} {k : String} {a : Accessor W} (x : Float) :
      t.Touches w v → t.find? k = some (.accessor a) → t.Touches w (a.set x v)

/-- Every getter goes on answering what it answers in the world `w`, whatever gets and sets
come before. -/
def Constant (t : Table W) (w : W) : Prop :=
  ∀ k a v, t.find? k = some (.accessor a) → t.Touches w v → (a.get v).1 = (a.get w).1

/-- No getter tells the worlds in `P` apart, and no getter and no setter leads out of `P`. -/
structure Unmoved (t : Table W) (P : W → Prop) : Prop where
  answer {k : String} {a : Accessor W} : t.find? k = some (.accessor a) →
    ∀ v w, P v → P w → (a.get v).1 = (a.get w).1
  get {k : String} {a : Accessor W} : t.find? k = some (.accessor a) → ∀ w, P w → P (a.get w).2
  set {k : String} {a : Accessor W} : t.find? k = some (.accessor a) →
    ∀ x w, P w → P (a.set x w)

theorem Constant.unmoved {t : Table W} {w : W} (h : t.Constant w) : t.Unmoved (t.Touches w) where
  answer ha v u hv hu := (h _ _ v ha hv).trans (h _ _ u ha hu).symm
  get ha _ hv := .get hv ha
  set ha x _ hv := .set x hv ha

theorem Unmoved.mono {t u : Table W} {P : W → Prop} (ht : t.Unmoved P)
    (h : ∀ k a, u.find? k = some (.accessor a) → t.find? k = some (.accessor a)) :
    u.Unmoved P where
  answer ha := ht.answer (h _ _ ha)
  get ha := ht.get (h _ _ ha)
  set ha := ht.set (h _ _ ha)

variable {t : Table W} {P : W → Prop}

theorem Unmoved.alike_read (ht : t.Unmoved P) {k : String} {a : Accessor W}
    (ha : t.find? k = some (.accessor a)) : Act.Alike P a.read where
  answer h j hh hj := ht.answer ha h.world j.world hh hj
  stays h hh := ht.get ha h.world hh

theorem Unmoved.alike_write (ht : t.Unmoved P) {k : String} {a : Accessor W}
    (ha : t.find? k = some (.accessor a)) (x : Float) : Act.Alike P (a.write x) where
  answer _ _ _ _ := rfl
  stays h hh := ht.set ha x h.world hh

theorem Unmoved.hereditary (ht : t.Unmoved P) : Act.Hereditary t fun _ m => Act.Alike P m where
  pure x := .pure P x
  bind hm hf := .bind hm fun _ _ => hf _
  record e := Act.alike_record P e
  read ha := ht.alike_read ha
  write x ha := ht.alike_write ha x

end Table

theorem Session.alike_evaluate {s : Session W} {P : W → Prop} (hs : s.table.Unmoved P)
    (statement : String) : Act.Alike P (s.evaluate statement) :=
  hereditary_evaluate hs.hereditary statement

end RuleSheet
