import RuleSheet.Proofs.Observation

/-!
# Calls of accessors

What an activity does to the outside is told by the list of its calls of accessors: it
leads to the world to which these calls lead, one after the other, and the record has the
events of these calls and no others of their kind. What else was recorded in between does
not matter, since no accessor sees the record.
-/
namespace RuleSheet
variable {W : Type}

/-- A call of one of the two functions of an accessor. -/
inductive AccessorCall (W : Type) where
  | get (a : Accessor W)
  | set (a : Accessor W) (value : Float)

/-- The call of a getter or of a setter. -/
def Event.isCall : Event → Bool
  | .got _ _ | .set _ _ => true
  | _ => false

namespace Host

/-- The host after a call: a getter leads to the world that it answers beside its value, a
setter to the one that it makes of the value, and the call is recorded with the value. -/
def call (h : Host W) : AccessorCall W → Host W
  | .get a => ⟨(a.get h.world).2, h.events ++ [.got a.label (a.get h.world).1]⟩
  | .set a x => ⟨a.set x h.world, h.events ++ [.set a.label x]⟩

/-- The host after some calls and nothing else. -/
def replay (h : Host W) (calls : List (AccessorCall W)) : Host W :=
  calls.foldl call h

@[simp] theorem replay_append (h : Host W) (a b : List (AccessorCall W)) :
    h.replay (a ++ b) = (h.replay a).replay b :=
  List.foldl_append

/-- The two states of the host have one world, and the same calls of accessors are recorded
in them. -/
structure Agrees (h k : Host W) : Prop where
  world : h.world = k.world
  calls : h.events.filter Event.isCall = k.events.filter Event.isCall

theorem Agrees.refl (h : Host W) : h.Agrees h :=
  ⟨rfl, rfl⟩

theorem Agrees.trans {h j k : Host W} (hj : h.Agrees j) (jk : j.Agrees k) : h.Agrees k :=
  ⟨hj.world.trans jk.world, hj.calls.trans jk.calls⟩

theorem Agrees.call {h k : Host W} (hk : h.Agrees k) (c : AccessorCall W) :
    (h.call c).Agrees (k.call c) := by
  obtain ⟨w, events⟩ := h
  obtain ⟨v, others⟩ := k
  obtain ⟨rfl, hcalls⟩ := hk
  cases c with
  | get a =>
      refine ⟨rfl, ?_⟩
      change (events ++ [_]).filter _ = (others ++ [_]).filter _
      rw [List.filter_append, List.filter_append, hcalls]
  | set a x =>
      refine ⟨rfl, ?_⟩
      change (events ++ [_]).filter _ = (others ++ [_]).filter _
      rw [List.filter_append, List.filter_append, hcalls]

theorem Agrees.replay {h k : Host W} (hk : h.Agrees k) (calls : List (AccessorCall W)) :
    (h.replay calls).Agrees (k.replay calls) := by
  induction calls generalizing h k with
  | nil => exact hk
  | cons c rest ih => exact ih (hk.call c)

end Host

namespace Act

theorem agrees_record {e : Event} (he : e.isCall = false) (h : Host W) :
    ((record e).run h).2.Agrees h := by
  refine ⟨rfl, ?_⟩
  change (h.events ++ [e]).filter _ = _
  rw [List.filter_append, List.filter_cons_of_neg (by simp [he])]
  exact List.append_nil _

theorem agrees_recordPrinted (xs : List Float) (h : Host W) :
    ((recordPrinted xs).run h).2.Agrees h := by
  induction xs generalizing h with
  | nil => exact .refl h
  | cons x rest ih => exact (ih _).trans (agrees_record rfl h)

end Act
end RuleSheet
