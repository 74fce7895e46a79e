import RuleSheet.Symbols

/-!
# Activities that only observe

An activity observes when it calls getters of the table and records what it reads
and prints. It calls no setter and records nothing else, whether it succeeds or
not. This is a property of single steps that sequencing keeps, so it is shown here
for the primitive activities and then follows the shape of each definition.

The worlds that getters lead to are a relation of their own: a getter may change
the world, as one that counts its readers does.
-/
namespace RuleSheet
variable {W α β : Type}

namespace Attempt

/-- What an attempt answers from a state of the host, and the state it leaves. -/
def outcome (m : Attempt W α) (h : Host W) : Except StatementError α × Host W :=
  m.run.run h

/-- The cause of a failure. -/
def fault? : Except StatementError α → Option StatementError
  | .ok _ => none
  | .error e => some e

@[simp] theorem fault?_eq_some_iff {answer : Except StatementError α} {e : StatementError} :
    fault? answer = some e ↔ answer = .error e := by
  cases answer <;> simp [fault?]

@[simp] theorem fault?_eq_none_iff {answer : Except StatementError α} :
    fault? answer = none ↔ ∃ x, answer = .ok x := by
  cases answer <;> simp [fault?]

@[simp] theorem outcome_pure (x : α) (h : Host W) :
    outcome (pure x : Attempt W α) h = (.ok x, h) := rfl

@[simp] theorem outcome_throw (e : StatementError) (h : Host W) :
    outcome (throw e : Attempt W α) h = (.error e, h) := rfl

theorem outcome_bind (m : Attempt W α) (f : α → Attempt W β) (h : Host W) :
    outcome (m >>= f) h =
      match outcome m h with
      | (.ok x, k) => outcome (f x) k
      | (.error e, k) => (.error e, k) := by
  change (ExceptT.bindCont f _ : Act W _).run _ = _
  unfold outcome
  generalize hm : m.run.run h = r
  change (ExceptT.bindCont f (m.run.run h).1 : Act W _).run (m.run.run h).2 = _
  rw [hm]
  obtain ⟨x | x, k⟩ := r <;> rfl

theorem outcome_lift_bind (m : Act W α) (f : α → Attempt W β) (h : Host W) :
    outcome ((liftM m : Attempt W α) >>= f) h = outcome (f (m.run h).1) (m.run h).2 := by
  rw [outcome_bind]
  rfl

theorem outcome_bind_ok {m : Attempt W α} {f : α → Attempt W β} {h k : Host W} {y : β} :
    outcome (m >>= f) h = (.ok y, k) ↔
      ∃ x j, outcome m h = (.ok x, j) ∧ outcome (f x) j = (.ok y, k) := by
  rw [outcome_bind]
  constructor
  · intro hy
    split at hy
    next x j hx => exact ⟨x, j, hx, hy⟩
    next e j hx => simp at hy
  · intro hboth
    rcases hboth with ⟨x, j, hx, hy⟩
    rw [hx]
    exact hy

end Attempt

/-- A getter that was called or a number that was printed. -/
def Event.isReading : Event → Bool
  | .got _ _ | .printed _ => true
  | _ => false

namespace Table

/-- The worlds that calls of the table's getters lead to. -/
inductive Reads (t : Table W) : W → W → Prop
  | done (w : W) : t.Reads w w
  | get {w v : W} {k : String} {a : Accessor W} :
      t.Reads w v → t.find? k = some (.accessor a) → t.Reads w (a.get v).2

theorem Reads.trans {t : Table W} {u v w : W} (h : t.Reads u v) (k : t.Reads v w) :
    t.Reads u w := by
  induction k with
  | done => exact h
  | get _ ha ih => exact .get ih ha

/-- Between two states of the host only getters were called and numbers printed. -/
structure Observes (t : Table W) (h k : Host W) : Prop where
  world : t.Reads h.world k.world
  events : ∃ new, k.events = h.events ++ new ∧ ∀ e ∈ new, e.isReading = true

theorem Observes.refl (t : Table W) (h : Host W) : t.Observes h h :=
  ⟨.done _, [], by simp, by simp⟩

theorem Observes.trans {t : Table W} {h j k : Host W} (hj : t.Observes h j)
    (jk : t.Observes j k) : t.Observes h k := by
  obtain ⟨a, ha, hra⟩ := hj.events
  obtain ⟨b, hb, hrb⟩ := jk.events
  refine ⟨hj.world.trans jk.world, a ++ b, ?_, ?_⟩
  · rw [hb, ha, List.append_assoc]
  · intro e he
    rcases List.mem_append.mp he with he | he
    · exact hra e he
    · exact hrb e he

/-- An activity that only observes, from any state of the host. -/
def Observing (t : Table W) (m : Act W α) : Prop :=
  ∀ h, t.Observes h (m.run h).2

theorem Observing.pure (t : Table W) (x : α) : t.Observing (pure x : Act W α) :=
  fun h => .refl t h

theorem Observing.bind {t : Table W} {m : Act W α} {f : α → Act W β} (hm : t.Observing m)
    (hf : ∀ x, t.Observing (f x)) : t.Observing (m >>= f) :=
  fun h => (hm h).trans (hf (m.run h).1 (m.run h).2)

/-- The same for an activity that may fail. -/
def Tries (t : Table W) (m : Attempt W α) : Prop :=
  ∀ h, t.Observes h (m.outcome h).2

theorem Tries.pure (t : Table W) (x : α) : t.Tries (Pure.pure x : Attempt W α) :=
  fun h => .refl t h

theorem Tries.throw (t : Table W) (e : StatementError) :
    t.Tries (MonadExcept.throw e : Attempt W α) :=
  fun h => .refl t h

theorem Tries.lift {t : Table W} {m : Act W α} (hm : t.Observing m) :
    t.Tries (liftM m : Attempt W α) :=
  hm

theorem Tries.bind {t : Table W} {m : Attempt W α} {f : α → Attempt W β} (hm : t.Tries m)
    (hf : ∀ x, t.Tries (f x)) : t.Tries (m >>= f) := by
  intro h
  have hh := hm h
  rw [Attempt.outcome_bind]
  split
  next x k hx =>
    rw [hx] at hh
    exact hh.trans (hf x k)
  next e k hx =>
    rw [hx] at hh
    exact hh

theorem observing_record (t : Table W) {e : Event} (he : e.isReading = true) :
    t.Observing (Act.record e) :=
  fun _ => ⟨.done _, [e], rfl, by simpa using he⟩

theorem observing_recordPrinted (t : Table W) (xs : List Float) :
    t.Observing (Act.recordPrinted xs) := by
  induction xs with
  | nil => exact .pure t ()
  | cons x rest ih => exact .bind (observing_record t rfl) fun _ => ih

theorem observing_read {t : Table W} {k : String} {a : Accessor W}
    (ha : t.find? k = some (.accessor a)) : t.Observing a.read :=
  fun h => ⟨.get (.done h.world) ha, [.got a.label (a.get h.world).1], rfl,
    by simp [Event.isReading]⟩

theorem observing_resolve (t : Table W) (name : String) : t.Observing (t.resolve name) := by
  unfold resolve
  split
  · exact .pure t _
  · exact .pure t _
  · exact .pure t _
  · rename_i a ha
    exact .bind (observing_read ha) fun _ => .pure t _

end Table

namespace Attempt

/-- A property of attempts that holds of the single steps of an evaluation and that
sequencing keeps. It follows the shape of each definition, so that evaluations as a whole
have it. -/
structure Hereditary (t : Table W) (C : (α : Type) → Attempt W α → Prop) : Prop where
  pure {α : Type} (x : α) : C α (Pure.pure x)
  throw {α : Type} (e : StatementError) : C α (MonadExcept.throw e)
  bind {α β : Type} {m : Attempt W α} {f : α → Attempt W β} :
    C α m → (∀ x, C β (f x)) → C β (m >>= f)
  resolve (n : String) : C (Option Float) (liftM (t.resolve n))
  printed (xs : List Float) : C Unit (liftM (Act.recordPrinted xs : Act W Unit))

theorem Hereditary.foldlM {t : Table W} {C : (α : Type) → Attempt W α → Prop}
    (hC : Hereditary t C) {f : β → α → Attempt W β} (hf : ∀ y x, C β (f y x)) (xs : List α)
    (y : β) : C β (xs.foldlM f y) := by
  induction xs generalizing y with
  | nil => exact hC.pure y
  | cons x rest ih => exact hC.bind (hf y x) ih

theorem hereditary_tries (t : Table W) : Hereditary t fun _ m => t.Tries m where
  pure x := .pure t x
  throw e := .throw t e
  bind hm hf := .bind hm hf
  resolve n := .lift (t.observing_resolve n)
  printed xs := .lift (t.observing_recordPrinted xs)

end Attempt
end RuleSheet
