import RuleSheet.Proofs.Number.Numeral
import RuleSheet.Proofs.Session.Reachable

/-!
# Formulas and how they are written

A formula is an expression as it is meant, with the grouping of its operators. It is
written with the parentheses that it needs, and with any others besides. What it needs
follows from the levels: every operator has the level of its strength, a minus sign has a
level above all operators, and numerals, names, calls and what stands in parentheses have
the highest. An operand of the same level as its operator needs no parentheses on the
right of a power and on the left of any other operator.

The characters in which a formula is written are settled. A text spells the formula if
it becomes these characters when its blanks are dropped and the case of its letters is
forgotten.
-/
namespace RuleSheet
open Text
variable {W : Type}

inductive Formula where
  | literal (digits : String)
  | name (n : String)
  | call (f : String) (e : Formula)
  | group (e : Formula)
  | negate (e : Formula)
  | binary (op : Operator) (l r : Formula)

namespace Formula

/-- Literals are numerals, names are those of the table as it keeps them, and calls are
of built-in functions. -/
def Over (t : Table W) : Formula → Prop
  | literal digits => Numeral digits.toList
  | name n => (t.find? n).isSome = true
  | call f e => Builtin.isName f = true ∧ e.Over t
  | group e => e.Over t
  | negate e => e.Over t
  | binary _ l r => l.Over t ∧ r.Over t

/-- The value of a formula while its names have the values `reading`. A literal with a
minus sign is read together with its sign. -/
def value (reading : String → Option Float) : Formula → Option Float
  | literal digits => Number.read? digits.toList
  | name n => reading n
  | call f e => do return (← Builtin.ofName? f).apply (← e.value reading)
  | group e => e.value reading
  | negate (literal digits) => Number.read? ('-' :: digits.toList)
  | negate e => do return Operator.multiply.apply (-1) (← e.value reading)
  | binary op l r => do return op.apply (← l.value reading) (← r.value reading)

/-- How strongly an operator is to bind: or, and, exclusive or, sums, products, powers. -/
def strength : Operator → Nat
  | .or => 1
  | .and => 2
  | .xor => 3
  | .add | .subtract => 4
  | .multiply | .divide | .modulo => 5
  | .power => 6

/-- The level of a minus sign, above that of every operator. -/
def negationLevel : Nat := 7

/-- The level of what needs no parentheses anywhere. -/
def operandLevel : Nat := 8

/-- An operand of level `level` may stand without parentheses on the left of `op`. -/
def FitsLeft (op : Operator) (level : Nat) : Prop :=
  if op = .power then strength op < level else strength op ≤ level

/-- An operand of level `level` may stand without parentheses on the right of `op`. -/
def FitsRight (op : Operator) (level : Nat) : Prop :=
  if op = .power then strength op ≤ level else strength op < level

instance (op : Operator) (level : Nat) : Decidable (FitsLeft op level) :=
  inferInstanceAs (Decidable (if op = .power then strength op < level else strength op ≤ level))

instance (op : Operator) (level : Nat) : Decidable (FitsRight op level) :=
  inferInstanceAs (Decidable (if op = .power then strength op ≤ level else strength op < level))

/-- A formula, the level at which it is written, and its characters. -/
inductive Written : Formula → Nat → List Char → Prop
  | literal (digits : String) : Written (.literal digits) operandLevel digits.toList
  | name (n : String) : Written (.name n) operandLevel n.toList
  | call (f : String) {e : Formula} {level : Nat} {cs : List Char} :
      Written e level cs →
      Written (.call f e) operandLevel (f.toList ++ '(' :: (cs ++ [')']))
  | group {e : Formula} {level : Nat} {cs : List Char} :
      Written e level cs → Written (.group e) operandLevel ('(' :: (cs ++ [')']))
  | parentheses {e : Formula} {level : Nat} {cs : List Char} :
      Written e level cs → Written e operandLevel ('(' :: (cs ++ [')']))
  | negate {e : Formula} {cs : List Char} :
      Written e operandLevel cs → Written (.negate e) negationLevel ('-' :: cs)
  | binary {op : Operator} {sign : Char} {l r : Formula} {left right : Nat}
      {cs ds : List Char} :
      Operator.ofChar? sign = some op → Written l left cs → FitsLeft op left →
      Written r right ds → FitsRight op right →
      Written (.binary op l r) (strength op) (cs ++ sign :: ds)

/-- A text of the formula, with blanks anywhere and letters in any case. -/
def Spelled (e : Formula) (text : List Char) : Prop :=
  ∃ level cs, Written e level cs ∧ (dropBlanks text).map Char.toLower = cs.map Char.toLower

/-- A character that a formula is written with. -/
def Plain (c : Char) : Prop :=
  IsSettled c ∧ c ≠ '?'

instance : DecidablePred Plain := fun c =>
  inferInstanceAs (Decidable (IsSettled c ∧ c ≠ '?'))

theorem plain_of_lt {c : Char} (hlt : c.toNat < 64) (hq : c ≠ '?') : Plain c := by
  have hsettled : IsSettled c := of_toNat_lt (p := IsSettled) (by decide +kernel) hlt
  exact ⟨hsettled, hq⟩

theorem plain_of_isDigit {c : Char} (h : c.isDigit = true) : Plain c := by
  have hle : c.toNat ≤ '9'.toNat := (Char.isDigit_iff_toNat.mp h).2
  refine plain_of_lt (Nat.lt_of_le_of_lt hle (by decide)) ?_
  intro heq
  subst heq
  exact absurd hle (by decide)

theorem plain_of_ofChar? {sign : Char} {op : Operator}
    (h : Operator.ofChar? sign = some op) : Plain sign := by
  unfold Operator.ofChar? at h
  split at h
  all_goals first | decide +kernel | cases h

theorem plain_of_isName {f : String} (hf : Builtin.isName f = true) :
    ∀ c ∈ f.toList, Plain c := by
  have hall : ∀ g ∈ Builtin.all, ∀ m ∈ g.names,
      m.toList.all (fun c => decide (Plain c)) = true := by
    decide +kernel
  have hplain := List.all_eq_true.mp (Builtin.of_isName hall hf)
  exact fun c hc => of_decide_eq_true (hplain c hc)

theorem plain_of_identifier {n : String} (hn : Token.Identifier n) :
    ∀ c ∈ n.toList, Plain c := by
  intro c hc
  refine ⟨hn.settled c hc, ?_⟩
  intro heq
  subst heq
  exact hn.not_mem (by decide +kernel) hc

theorem Written.plain {t : Table W} (ht : t.Named) {e : Formula} {level : Nat}
    {cs : List Char} (h : Written e level cs) (he : e.Over t) : ∀ c ∈ cs, Plain c := by
  have enclosed {ds : List Char} (hds : ∀ c ∈ ds, Plain c) :
      ∀ c ∈ '(' :: (ds ++ [')']), Plain c := by
    intro c hc
    rw [List.mem_cons, List.mem_append, List.mem_singleton] at hc
    rcases hc with rfl | hc | rfl
    · decide +kernel
    · exact hds c hc
    · decide +kernel
  induction h with
  | literal digits =>
      intro c hc
      rcases he.only c hc with hdigit | rfl
      · exact plain_of_isDigit hdigit
      · decide +kernel
  | name n => exact plain_of_identifier (ht.identifier he)
  | call f _ ih =>
      intro c hc
      rcases List.mem_append.mp hc with hc | hc
      · exact plain_of_isName he.1 c hc
      · exact enclosed (ih he.2) c hc
  | group _ ih => exact enclosed (ih he)
  | parentheses _ ih => exact enclosed (ih he)
  | negate _ ih =>
      intro c hc
      rcases List.mem_cons.mp hc with rfl | hc
      · decide +kernel
      · exact ih he c hc
  | binary hsign _ _ _ _ ihl ihr =>
      intro c hc
      rw [List.mem_append, List.mem_cons] at hc
      rcases hc with hc | rfl | hc
      · exact ihl he.1 c hc
      · exact plain_of_ofChar? hsign
      · exact ihr he.2 c hc

theorem normalize_of_spelled {text cs : List Char} (hcs : ∀ c ∈ cs, Plain c)
    (h : (dropBlanks text).map Char.toLower = cs.map Char.toLower) :
    Token.normalize text = cs :=
  lowerChars_of_map_toLower (fun d hd => (hcs d hd).1) h

theorem not_mem_of_spelled {text cs : List Char} (hcs : ∀ c ∈ cs, Plain c)
    (h : (dropBlanks text).map Char.toLower = cs.map Char.toLower) : '?' ∉ text := by
  intro hq
  have hkept : '?' ∈ dropBlanks text :=
    List.mem_filter.mpr ⟨hq, by decide +kernel⟩
  have hlower : '?' ∈ (dropBlanks text).map Char.toLower :=
    List.mem_map.mpr ⟨'?', hkept, by decide⟩
  rw [h] at hlower
  obtain ⟨c, hc, hcq⟩ := List.mem_map.mp hlower
  have hsettled := lowerChar_of_toLower_eq (c := '?') (hcs c hc).1 (by rw [hcq]; decide)
  refine (hcs c hc).2 (List.singleton_inj.mp ?_)
  rw [← hsettled]
  decide +kernel

end Formula
end RuleSheet
