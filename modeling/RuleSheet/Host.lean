import RuleSheet.StatementError

/-!
# The world outside

Accessors reach values that the library does not own. The world that holds them
is a type of the host's own choice, and an accessor is a pair of functions on
it. Reading may change the world, as when a value counts its readers.

Everything that can be seen from outside is recorded as it happens: every call
of an accessor, every number printed, and what statements and passes do. The
record only grows, and nothing in the library reads it.
-/
namespace RuleSheet

inductive Event where
  | got (label : String) (value : Float)
  | set (label : String) (value : Float)
  | printed (value : Float)
  | declared (name : String) (value : Float)
  | assigned (name : String) (value : Float)
  | registered (name : String)
  | failed (index : Nat) (statement : String) (error : StatementError)
  | passed (applied declared failed : Nat)

/-- The host's world, and all that has happened so far, in order. -/
structure Host (W : Type) where
  world : W
  events : List Event

/-- An activity that may call accessors and be recorded. -/
abbrev Act (W : Type) := StateM (Host W)

/-- An activity that may fail. What it has done before it fails stays done. -/
abbrev Attempt (W : Type) := ExceptT StatementError (Act W)

namespace Act
variable {W : Type}

def record (e : Event) : Act W Unit :=
  modify fun h => { h with events := h.events ++ [e] }

/-- Records every number that was printed, in order. -/
def recordPrinted : List Float → Act W Unit
  | [] => pure ()
  | x :: rest => do
      record (.printed x)
      recordPrinted rest

end Act

/-- A value outside, with the label under which its calls are recorded. -/
structure Accessor (W : Type) where
  label : String
  get : W → Float × W
  set : Float → W → W

namespace Accessor
variable {W : Type}

def read (a : Accessor W) : Act W Float := do
  let value ← modifyGet fun h =>
    let (value, world) := a.get h.world
    (value, { h with world := world })
  Act.record (.got a.label value)
  return value

def write (a : Accessor W) (value : Float) : Act W Unit := do
  modify fun h => { h with world := a.set value h.world }
  Act.record (.set a.label value)

@[simp] theorem run_read (a : Accessor W) (h : Host W) :
    a.read.run h =
      ((a.get h.world).1,
        ⟨(a.get h.world).2, h.events ++ [.got a.label (a.get h.world).1]⟩) := rfl

@[simp] theorem run_write (a : Accessor W) (value : Float) (h : Host W) :
    (a.write value).run h = ((), ⟨a.set value h.world, h.events ++ [.set a.label value]⟩) := rfl

end Accessor
end RuleSheet
