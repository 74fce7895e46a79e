import RuleSheet.Host
import RuleSheet.Text.Blank
import RuleSheet.Text.Lower
import RuleSheet.Text.Upper

/-!
# The symbol table

Constants, variables and accessors share one name space, so a name has one
meaning. A name is looked up under its key: blanks at the ends are dropped, and
the name is lowered as a whole if it has a capital in it. The table keeps its
entries in the order in which they were added, and no key occurs twice.
-/
namespace RuleSheet

inductive Symbol (W : Type) where
  | constant (value : Float)
  | variable (value : Float)
  | accessor (a : Accessor W)

namespace Symbol
variable {W : Type}

def isVariable : Symbol W → Bool
  | .variable _ => true
  | _ => false

def isAccessor : Symbol W → Bool
  | .accessor _ => true
  | _ => false

end Symbol

structure Table (W : Type) where
  entries : List (String × Symbol W)
  distinct : (entries.map Prod.fst).Nodup

namespace Table
variable {W : Type}

/-- The key that a name is kept under. -/
def key (name : String) : String :=
  let trimmed := Text.trim name.toList
  String.ofList (if trimmed.any Text.isUpper then Text.lower trimmed else trimmed)

def constants : List (String × Float) :=
  [("pi", 3.141592653589793), ("π", 3.141592653589793), ("e", 2.718281828459045),
   ("tau", 6.283185307179586), ("phi", 1.618033988749895), ("φ", 1.618033988749895),
   ("true", 1), ("false", 0)]

/-- A table with nothing but the built-in constants. -/
def initial : Table W where
  entries := constants.map fun (name, value) => (name, .constant value)
  distinct := by
    rw [List.map_map]
    exact (by decide : (constants.map Prod.fst).Nodup)

/-- The symbol kept under a key. -/
def find? (t : Table W) (k : String) : Option (Symbol W) :=
  t.entries.lookup k

theorem find?_eq_none {t : Table W} {k : String} (h : t.find? k = none) :
    k ∉ t.entries.map Prod.fst := by
  intro hk
  obtain ⟨⟨name, s⟩, hm, rfl⟩ := List.mem_map.mp hk
  exact absurd (List.lookup_eq_none_iff.mp h (name, s) hm) (by simp)

/-- A new entry, at the end. -/
def add (t : Table W) (k : String) (s : Symbol W) (h : t.find? k = none) : Table W where
  entries := t.entries ++ [(k, s)]
  distinct := by
    simp only [List.map_append, List.map_cons, List.map_nil]
    refine List.nodup_append.mpr ⟨t.distinct, by simp, ?_⟩
    intro a ha b hb
    rw [List.mem_singleton] at hb
    subst hb
    intro heq
    subst heq
    exact find?_eq_none h ha

@[simp] theorem find?_add (t : Table W) {k : String} (s : Symbol W) (h : t.find? k = none)
    (j : String) : (t.add k s h).find? j = if j = k then some s else t.find? j := by
  change (t.entries ++ [(k, s)]).lookup j = _
  rw [List.lookup_append]
  by_cases hj : j = k
  · subst hj
    have hn : t.entries.lookup j = none := h
    simp [hn]
  · have hb : (j == k) = false := beq_eq_false_iff_ne.mpr hj
    simp [find?, hj, hb, List.lookup_cons]

/-- A new value for the variable kept under a key. -/
def store (t : Table W) (k : String) (value : Float) : Table W where
  entries := t.entries.map fun e => if e.1 = k then (e.1, .variable value) else e
  distinct := by
    have h : (t.entries.map fun e => if e.1 = k then (e.1, Symbol.variable value) else e).map
        Prod.fst = t.entries.map Prod.fst := by
      rw [List.map_map]
      apply List.map_congr_left
      intro e _
      simp only [Function.comp_apply]
      split <;> rfl
    rw [h]
    exact t.distinct

@[simp] theorem find?_store (t : Table W) (k : String) (value : Float) (j : String) :
    (t.store k value).find? j =
      if j = k then (t.find? k).map fun _ => .variable value else t.find? j := by
  change (t.entries.map fun e => if e.1 = k then (e.1, .variable value) else e).lookup j = _
  unfold find?
  induction t.entries with
  | nil => simp
  | cons e rest ih =>
      obtain ⟨name, s⟩ := e
      have hm : (if name = k then (name, Symbol.variable value) else (name, s)) =
          (name, if name = k then Symbol.variable value else s) := by
        split <;> rfl
      simp only [List.map_cons, hm, List.lookup_cons]
      by_cases hj : j = name
      · subst hj
        by_cases hk : j = k
        · simp [hk]
        · simp [hk]
      · have hb : (j == name) = false := beq_eq_false_iff_ne.mpr hj
        rw [hb, ih]
        by_cases hk : j = k
        · subst hk
          simp [hb]
        · simp [hk]

/-- The entries that satisfy a condition. -/
def keep (t : Table W) (p : String × Symbol W → Bool) : Table W where
  entries := t.entries.filter p
  distinct := List.Pairwise.sublist (List.filter_sublist.map _) t.distinct

@[simp] theorem find?_keep (t : Table W) (p : String × Symbol W → Bool) (j : String) :
    (t.keep p).find? j = (t.find? j).filter fun s => p (j, s) := by
  change (t.entries.filter p).lookup j = _
  have hd := t.distinct
  unfold find?
  revert hd
  induction t.entries with
  | nil => simp
  | cons e rest ih =>
      obtain ⟨name, s⟩ := e
      intro hd
      rw [List.map_cons, List.nodup_cons] at hd
      have hn : List.lookup name (rest.filter p) = none := by
        rw [List.lookup_eq_none_iff]
        intro e hm
        rcases e with ⟨k, u⟩
        simp only [bne_iff_ne]
        intro heq
        subst heq
        exact hd.1 (List.mem_map.mpr ⟨(name, u), (List.mem_filter.mp hm).1, rfl⟩)
      rw [List.filter_cons]
      by_cases hj : j = name
      · subst hj
        by_cases hp : p (j, s) = true
        · simp [hp, Option.filter]
        · simp [hp, hn, Option.filter]
      · have hb : (j == name) = false := beq_eq_false_iff_ne.mpr hj
        split <;> simp [List.lookup_cons, hb, ih hd.2]

def get (t : Table W) (name : String) : Option (Symbol W) :=
  t.find? (key name)

def contains (t : Table W) (name : String) : Bool :=
  (t.get name).isSome

/-- The present value of a name, if it has a meaning. An accessor is read. -/
def resolve (t : Table W) (name : String) : Act W (Option Float) :=
  match t.get name with
  | none => pure none
  | some (.constant value) | some (.variable value) => pure (some value)
  | some (.accessor a) => do return some (← a.read)

/-- The value of a name that is a variable. -/
def variableValue (t : Table W) (name : String) : Option Float :=
  match t.get name with
  | some (.variable value) => some value
  | _ => none

def insert (t : Table W) (name : String) (s : Symbol W) : Except StatementError (Table W) :=
  match h : t.find? (key name) with
  | none => .ok (t.add (key name) s h)
  | some _ => .error (.duplicateName (key name))

/-- A new variable. It fails if the name is taken by any symbol. -/
def declare (t : Table W) (name : String) (value : Float) : Except StatementError (Table W) :=
  t.insert name (.variable value)

/-- A new accessor. It fails if the name is taken by any symbol. -/
def insertAccessor (t : Table W) (name : String) (a : Accessor W) :
    Except StatementError (Table W) :=
  t.insert name (.accessor a)

/-- Writes to a variable, or through an accessor. -/
def assign (t : Table W) (name : String) (value : Float) :
    Act W (Except StatementError (Table W)) :=
  match t.get name with
  | some (.variable _) => pure (.ok (t.store (key name) value))
  | some (.accessor a) => do
      a.write value
      return .ok t
  | some (.constant _) => pure (.error (.constantAssignment (key name)))
  | none => pure (.error (.undeclaredName (key name)))

/-- Without the name, if it is a symbol of the kind `kind`; and whether it was one. -/
def remove (t : Table W) (kind : Symbol W → Bool) (name : String) : Bool × Table W :=
  if (t.get name).any kind then (true, t.keep fun e => e.1 != key name) else (false, t)

def removeAccessor (t : Table W) (name : String) : Bool × Table W :=
  t.remove Symbol.isAccessor name

def removeVariable (t : Table W) (name : String) : Bool × Table W :=
  t.remove Symbol.isVariable name

def clearAccessors (t : Table W) : Table W :=
  t.keep fun e => !e.2.isAccessor

def clearVariables (t : Table W) : Table W :=
  t.keep fun e => !e.2.isVariable

def accessorNames (t : Table W) : List String :=
  (t.entries.filter fun e => e.2.isAccessor).map Prod.fst

def variableNames (t : Table W) : List String :=
  (t.entries.filter fun e => e.2.isVariable).map Prod.fst

end Table
end RuleSheet
