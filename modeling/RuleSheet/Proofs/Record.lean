import RuleSheet.Proofs.Session.Effect
import RuleSheet.Proofs.Session.Hereditary

/-!
# The record is only written

What an activity answers, what it makes of the world and what it records depend on the
world alone, and not on what was recorded before: the record grows at its end and is never
read. So two states of the host with one world can stand for one another, and it is enough
to relate what their records say of the setters.

Where no getter changes the world, a statement that fails leaves the world as it was, and
calls no setter.
-/
namespace RuleSheet
variable {W α β : Type}

namespace Act

/-- The activity does after any record what it does after an empty one, and appends to the
record. -/
def Blind (m : Act W α) : Prop :=
  ∀ h, m.run h = ((m.run ⟨h.world, []⟩).1,
    ⟨(m.run ⟨h.world, []⟩).2.world, h.events ++ (m.run ⟨h.world, []⟩).2.events⟩)

theorem Blind.pure (x : α) : Blind (Pure.pure x : Act W α) := by
  intro h
  change (x, h) = (x, Host.mk h.world (h.events ++ []))
  rw [List.append_nil]

theorem Blind.bind {m : Act W α} {f : α → Act W β} (hm : Blind m) (hf : ∀ x, Blind (f x)) :
    Blind (m >>= f) := by
  intro h
  have hrun (k : Host W) : (m >>= f).run k = (f (m.run k).1).run (m.run k).2 := rfl
  rw [hrun, hrun, hm h]
  generalize m.run ⟨h.world, []⟩ = out
  rw [hf out.1 ⟨out.2.world, h.events ++ out.2.events⟩, hf out.1 out.2]
  dsimp only
  rw [List.append_assoc]

theorem blind_record (e : Event) : Blind (record e : Act W Unit) :=
  fun _ => rfl

theorem blind_read (a : Accessor W) : Blind a.read :=
  fun _ => rfl

theorem blind_write (a : Accessor W) (x : Float) : Blind (a.write x) :=
  fun _ => rfl

theorem hereditary_blind (t : Table W) : Hereditary t fun _ m => Blind m where
  pure x := .pure x
  bind hm hf := .bind hm hf
  record e := blind_record e
  read {_ a} _ := blind_read a
  write {_ a} x _ := blind_write a x

end Act

/-- The call of a setter, with the label of its accessor. -/
def Event.setterCall? : Event → Option (String × Float)
  | .set label value => some (label, value)
  | _ => none

/-- The calls of setters in some events, in order. -/
def setterCalls (events : List Event) : List (String × Float) :=
  events.filterMap Event.setterCall?

@[simp] theorem setterCalls_append (a b : List Event) :
    setterCalls (a ++ b) = setterCalls a ++ setterCalls b :=
  List.filterMap_append

theorem setterCalls_of_isReading {events : List Event} (h : ∀ e ∈ events, e.isReading = true) :
    setterCalls events = [] := by
  refine List.filterMap_eq_nil_iff.mpr fun e he => ?_
  have hr := h e he
  cases e with
  | set label x => cases hr
  | _ => rfl

namespace Host

/-- Two states of the host with the same world, whose records have the same calls of
setters. -/
structure Matches (h k : Host W) : Prop where
  world : h.world = k.world
  setterCalls : RuleSheet.setterCalls h.events = RuleSheet.setterCalls k.events

theorem Matches.refl (h : Host W) : h.Matches h :=
  ⟨rfl, rfl⟩

theorem Matches.trans {h j k : Host W} (hj : h.Matches j) (jk : j.Matches k) : h.Matches k :=
  ⟨hj.world.trans jk.world, hj.setterCalls.trans jk.setterCalls⟩

theorem Matches.symm {h k : Host W} (hk : h.Matches k) : k.Matches h :=
  ⟨hk.world.symm, hk.setterCalls.symm⟩

theorem matches_record {h : Host W} {events : List Event}
    (hnone : RuleSheet.setterCalls events = []) : (h.record events).Matches h := by
  refine ⟨rfl, ?_⟩
  change RuleSheet.setterCalls (h.events ++ events) = _
  simp [hnone]

end Host

/-- From two states that match, an activity that does not read the record answers the same
and leads to two states that match. -/
theorem Act.Blind.matches {m : Act W α} (hm : Blind m) {h k : Host W} (hk : h.Matches k) :
    (m.run h).1 = (m.run k).1 ∧ (m.run h).2.Matches (m.run k).2 := by
  rw [hm h, hm k, hk.world]
  refine ⟨rfl, rfl, ?_⟩
  simp [hk.setterCalls]

namespace Table

/-- No getter changes the world. -/
def Quiet (t : Table W) : Prop :=
  ∀ k a w, t.find? k = some (.accessor a) → (a.get w).2 = w

theorem Quiet.mono {t u : Table W} (ht : t.Quiet)
    (h : ∀ k a, u.find? k = some (.accessor a) → t.find? k = some (.accessor a)) : u.Quiet :=
  fun k a w ha => ht k a w (h k a ha)

theorem Quiet.world_eq {t : Table W} (ht : t.Quiet) {v w : W} (h : t.Reads v w) : w = v := by
  induction h with
  | done => rfl
  | get _ ha ih => rw [ht _ _ _ ha, ih]

/-- Where getters are quiet, reading leaves no trace but in the record. -/
theorem Quiet.matches_of_observes {t : Table W} (ht : t.Quiet) {h k : Host W}
    (hk : t.Observes h k) : k.Matches h := by
  obtain ⟨new, hnew, hread⟩ := hk.events
  refine ⟨ht.world_eq hk.world, ?_⟩
  simp [hnew, setterCalls_of_isReading hread]

end Table

namespace Session

theorem blind_evaluate (s : Session W) (statement : String) : Act.Blind (s.evaluate statement) :=
  hereditary_evaluate (Act.hereditary_blind s.table) statement

theorem matches_of_error {s s' : Session W} (hs : s.table.Quiet) {statement : String}
    {h h' : Host W} {e : StatementError}
    (he : (s.evaluate statement).run h = ((.error e, s'), h')) : s' = s ∧ h'.Matches h := by
  rcases evaluate_cases s statement h with ⟨f, j, hout, hj⟩ | ⟨x, t, j, f, hout, _⟩
  · rw [he] at hout
    cases hout
    exact ⟨rfl, hs.matches_of_observes hj⟩
  · rw [he] at hout
    cases hout

end Session
end RuleSheet
