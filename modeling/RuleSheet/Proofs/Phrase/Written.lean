import RuleSheet.Proofs.Phrase.Postorder

/-!
# The phrase of a written formula

What a formula is written with is scanned to the tokens of an ordered phrase. A minus sign
is the sign of a literal, and otherwise a multiplication in a group of its own. The phrase
stands wherever the formula may stand, since its outermost operator binds no less than the
level at which the formula is written says.
-/
namespace RuleSheet
open Formula
variable {W : Type}

namespace Phrase

/-- A minus sign before the phrase: a product with minus one, in a group. -/
def negated (p : Phrase) : Phrase :=
  group (binary .multiply (number "-1") p)

/-- The characters are scanned at this level to the tokens of an ordered phrase. -/
structure Scanned (t : Table W) (level : Nat) (cs : List Char) (p : Phrase) : Prop where
  scans : Scan.Scans level cs p.tokens
  ends : Scan.EndsOperand p.tokens
  ordered : p.Ordered
  readable : p.Over t
  level : level ≤ p.level

theorem negationLevel_le : negationLevel ≤ operandLevel := by
  decide

theorem over_minusOne (t : Table W) : (number "-1").Over t := by
  change (Number.read? "-1".toList).isSome = true
  decide +kernel

section
variable {t : Table W} {level : Nat} {cs : List Char} {p : Phrase}

theorem Scanned.literal {digits : String} (h : Numeral digits.toList) :
    Scanned t operandLevel digits.toList (.number digits) where
  scans := Scan.scans_literal h _
  ends := fun _ _ _ => rfl
  ordered := trivial
  readable := by
    obtain ⟨x, hx, _⟩ := h.exists_read
    exact Option.isSome_of_mem hx
  level := Nat.le_refl _

theorem Scanned.negative {digits : String} (h : Numeral digits.toList) :
    Scanned t negationLevel ('-' :: digits.toList)
      (.number (String.ofList ('-' :: digits.toList))) where
  scans := Scan.scans_negative h _
  ends := fun _ _ _ => rfl
  ordered := trivial
  readable := by
    obtain ⟨x, _, hx⟩ := h.exists_read
    rw [Over, String.toList_ofList]
    exact Option.isSome_of_mem hx
  level := negationLevel_le

theorem Scanned.symbol (ht : t.Named) {n : String} (hn : (t.find? n).isSome = true) :
    Scanned t operandLevel n.toList (.symbol n) where
  scans := Scan.scans_name (ht.identifier hn) _
  ends := fun _ _ _ => rfl
  ordered := trivial
  readable := by
    rw [Over, Table.contains, ht.get hn]
    exact hn
  level := Nat.le_refl _

theorem Scanned.call (ht : t.Named) {f : String} (hf : Builtin.isName f = true)
    (h : Scanned t level cs p) :
    Scanned t operandLevel (f.toList ++ '(' :: (cs ++ [')'])) (.call f p) where
  scans := Scan.scans_call hf h.scans.encloses _
  ends := Scan.endsOperand_closing (.name f :: .opening :: p.tokens)
  ordered := h.ordered
  readable := by
    refine ⟨hf, ?_, h.readable⟩
    rw [Table.contains, ht.get_of_isName hf]
    rfl
  level := Nat.le_refl _

theorem Scanned.group (h : Scanned t level cs p) :
    Scanned t operandLevel ('(' :: (cs ++ [')'])) (.group p) where
  scans := Scan.scans_group h.scans.encloses _
  ends := Scan.endsOperand_closing (.opening :: p.tokens)
  ordered := h.ordered
  readable := h.readable
  level := Nat.le_refl _

theorem Scanned.negated (h : Scanned t operandLevel cs p)
    (hstart : ∃ c tail, cs = c :: tail ∧ (c = '(' ∨ Lexeme.isNameChar c = true)) :
    Scanned t negationLevel ('-' :: cs) p.negated where
  scans := Scan.scans_negate h.scans hstart _
  ends := Scan.endsOperand_closing (.opening :: .number "-1" :: .operator .multiply :: p.tokens)
  ordered := ⟨trivial, h.ordered, fitsLeft_operandLevel _,
    fitsRight_mono (fitsRight_operandLevel _) h.level⟩
  readable := ⟨over_minusOne t, h.readable⟩
  level := negationLevel_le

theorem Scanned.binary {op : Operator} {sign : Char} (hsign : Operator.ofChar? sign = some op)
    {left right : Nat} {ds : List Char} {q : Phrase} (hp : Scanned t left cs p)
    (hleft : FitsLeft op left) (hq : Scanned t right ds q) (hright : FitsRight op right) :
    Scanned t (strength op) (cs ++ sign :: ds) (.binary op p q) where
  scans := Scan.scans_binary hsign hp.scans hp.ends hq.scans (strength_ne_operandLevel op)
  ends := by
    have hends := hq.ends.append_left (p.tokens ++ [.operator op])
    rw [List.append_assoc] at hends
    exact hends
  ordered := ⟨hp.ordered, hq.ordered, fitsLeft_mono hleft hp.level,
    fitsRight_mono hright hq.level⟩
  readable := ⟨hp.readable, hq.readable⟩
  level := Nat.le_refl _

/-- A text with these characters has the value of the phrase, and prints what the phrase
prints. -/
theorem Scanned.outcome_plainValue (h : Scanned t level cs p) {text : List Char}
    (htext : Token.normalize text = cs) {host k : Host W} {b : Bracketed}
    (hb : ReadsAs t p host b k) (autoBalance : Bool) :
    (Expression.plainValue t autoBalance text).outcome host =
      (.ok b.tree.eval, ((Act.recordPrinted b.tree.printed : Act W Unit).run k).2) := by
  have htokens : Token.scan autoBalance text = p.tokens := by
    rw [Token.scan, htext]
    exact ofNormal_of_scans h.scans autoBalance
  rw [Expression.outcome_plainValue, htokens]
  exact ⟨_, k, hb.outcome_ofTokens h.ordered, b.tree.value_postorder, by
    rw [b.tree.printed_postorder]⟩

end

theorem exists_scanned {t : Table W} (ht : t.Named) {e : Formula} {level : Nat}
    {cs : List Char} (h : Written e level cs) (he : e.Over t) : ∃ p, Scanned t level cs p := by
  induction h with
  | literal digits => exact ⟨_, .literal he⟩
  | name n => exact ⟨_, .symbol ht he⟩
  | call f _ ih =>
      obtain ⟨p, hp⟩ := ih he.2
      exact ⟨_, hp.call ht he.1⟩
  | group _ ih =>
      obtain ⟨p, hp⟩ := ih he
      exact ⟨_, hp.group⟩
  | parentheses _ ih =>
      obtain ⟨p, hp⟩ := ih he
      exact ⟨_, hp.group⟩
  | negate hw ih =>
      rcases hw.starts ht he with ⟨digits, rfl, rfl⟩ | hstart
      · exact ⟨_, .negative he⟩
      · obtain ⟨p, hp⟩ := ih he
        exact ⟨_, hp.negated hstart⟩
  | binary hsign _ hleft _ hright ihl ihr =>
      obtain ⟨p, hp⟩ := ihl he.1
      obtain ⟨q, hq⟩ := ihr he.2
      exact ⟨_, hp.binary hsign hleft hq hright⟩

end Phrase
end RuleSheet
