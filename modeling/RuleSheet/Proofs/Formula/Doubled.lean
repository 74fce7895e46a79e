import RuleSheet.Proofs.Number.Sign
import RuleSheet.Proofs.Phrase.Written

/-!
# Two minus signs

Two minus signs before an operand change its sign twice. The first of them is not put into
a group with the operand as a single minus sign is, but becomes a factor of its own, minus
one, that operators on both sides may take for themselves. Where the operand stands after
a quotient, a remainder or a power sign, or before a power sign, the factor is taken away
from the operand and the value is another one. At all other places the value is kept: the
product of the factor and the operand stays together, or it follows a product sign and the
sign of the whole product is changed twice.
-/
namespace RuleSheet
open Formula
variable {W : Type}

namespace Formula

/-- A formula is written with an operand that begins the text or stands right after an
opening parenthesis or a binary operator. The texts are what stands before the operand, the
operand, and what stands after it. -/
inductive Around : Formula → Nat → List Char → List Char → List Char → Prop
  | here {o : Formula} {cs : List Char} : Written o operandLevel cs →
      Around o operandLevel [] cs []
  | call (f : String) {e : Formula} {level : Nat} {u o v : List Char} :
      Around e level u o v →
      Around (.call f e) operandLevel (f.toList ++ '(' :: u) o (v ++ [')'])
  | group {e : Formula} {level : Nat} {u o v : List Char} :
      Around e level u o v → Around (.group e) operandLevel ('(' :: u) o (v ++ [')'])
  | parentheses {e : Formula} {level : Nat} {u o v : List Char} :
      Around e level u o v → Around e operandLevel ('(' :: u) o (v ++ [')'])
  | negate {e : Formula} {u o v : List Char} : Around e operandLevel u o v → u ≠ [] →
      Around (.negate e) negationLevel ('-' :: u) o v
  | left {op : Operator} {sign : Char} {l r : Formula} {left right : Nat}
      {u o v ds : List Char} :
      Operator.ofChar? sign = some op → Around l left u o v → FitsLeft op left →
      Written r right ds → FitsRight op right →
      Around (.binary op l r) (strength op) u o (v ++ sign :: ds)
  | right {op : Operator} {sign : Char} {l r : Formula} {left right : Nat}
      {cs u o v : List Char} :
      Operator.ofChar? sign = some op → Written l left cs → FitsLeft op left →
      Around r right u o v → FitsRight op right →
      Around (.binary op l r) (strength op) (cs ++ sign :: u) o v

theorem Around.written {e : Formula} {level : Nat} {u o v : List Char}
    (h : Around e level u o v) : Written e level (u ++ o ++ v) := by
  induction h with
  | here hw => simpa using hw
  | call f _ ih => simpa using Written.call f ih
  | group _ ih => simpa using Written.group ih
  | parentheses _ ih => simpa using Written.parentheses ih
  | negate _ _ ih => exact .negate ih
  | left hsign _ hleft hw hright ih => simpa using Written.binary hsign ih hleft hw hright
  | right hsign hw hleft _ hright ih => simpa using Written.binary hsign hw hleft ih hright

theorem Around.eq_operandLevel {e : Formula} {level : Nat} {u o v : List Char}
    (h : Around e level u o v) (hu : u = []) (hv : v = []) : level = operandLevel := by
  cases h with
  | here _ => rfl
  | call f _ => simp at hu
  | group _ => cases hu
  | parentheses _ => cases hu
  | negate _ _ => cases hu
  | left _ _ _ _ _ => simp at hv
  | right _ _ _ _ _ => simp at hu

theorem Around.starts {t : Table W} {e : Formula} {u o v : List Char}
    (h : Around e operandLevel u o v) (he : e.Over t) (hu : u ≠ []) :
    ∃ c tail, u = c :: tail ∧ (c = '(' ∨ Lexeme.isNameChar c = true) := by
  generalize hlevel : operandLevel = level at h
  cases h with
  | here _ => exact absurd rfl hu
  | call f _ =>
      obtain ⟨c, tail, hf, hc⟩ := Scan.exists_isNameChar he.1
      rw [hf]
      exact ⟨c, _, List.cons_append, .inr hc⟩
  | group _ => exact ⟨'(', _, rfl, .inl rfl⟩
  | parentheses _ => exact ⟨'(', _, rfl, .inl rfl⟩
  | negate _ _ => cases hlevel
  | @left op _ _ _ _ _ _ _ _ _ _ _ _ _ _ =>
      exact absurd hlevel.symm (strength_ne_operandLevel op)
  | @right op _ _ _ _ _ _ _ _ _ _ _ _ _ _ =>
      exact absurd hlevel.symm (strength_ne_operandLevel op)

end Formula

namespace Phrase

/-- From every state of the host the two phrases are read in the same way, with the same
calls, and print the same. The value of the second is `f` of the value of the first. -/
def ReadAlike (t : Table W) (f : Float → Float) (p q : Phrase) : Prop :=
  ∀ h, ∃ b c k, ReadsAs t p h b k ∧ ReadsAs t q h c k ∧ c.tree.eval = f b.tree.eval ∧
    c.tree.printed = b.tree.printed

section
variable {t : Table W} {p q a n : Phrase}

theorem ReadAlike.refl (hp : p.Over t) : ReadAlike t id p p := by
  intro h
  obtain ⟨b, k, hb⟩ := exists_readsAs hp h
  exact ⟨b, b, k, hb, hb, rfl, rfl⟩

theorem ReadAlike.group {f : Float → Float} (h : ReadAlike t f p q) :
    ReadAlike t f (.group p) (.group q) := by
  intro host
  obtain ⟨b, c, k, hb, hc, heval, hprinted⟩ := h host
  exact ⟨_, _, k, hb.group, hc.group, heval, hprinted⟩

theorem ReadAlike.call {f : String} (hf : Builtin.isName f = true) (hfree : t.contains f = false)
    (h : ReadAlike t id p q) : ReadAlike t id (.call f p) (.call f q) := by
  intro host
  obtain ⟨g, hg⟩ := Option.isSome_iff_exists.mp hf
  obtain ⟨b, c, k, hb, hc, heval, hprinted⟩ := h host
  refine ⟨_, _, k, hb.call hg hfree, hc.call hg hfree, ?_, ?_⟩
  · exact congrArg g.apply heval
  · simp only [Bracketed.tree, Tree.printed, hprinted, heval, id]

theorem ReadAlike.binary {l l' r r' : Phrase} (hl : ReadAlike t id l l')
    (hr : ReadAlike t id r r') (op : Operator) :
    ReadAlike t id (.binary op l r) (.binary op l' r') := by
  intro h
  obtain ⟨bl, cl, j, hbl, hcl, hleval, hlprinted⟩ := hl h
  obtain ⟨br, cr, k, hbr, hcr, hreval, hrprinted⟩ := hr j
  refine ⟨_, _, k, hbl.binary hbr op, hcl.binary hcr op, ?_, ?_⟩
  · simp only [Bracketed.tree, Tree.eval, hleval, hreval, id]
  · simp only [Bracketed.tree, Tree.printed, hlprinted, hrprinted]

theorem readsAs_minusOne (t : Table W) (h : Host W) :
    ReadsAs t (.number "-1") h (.value (-1)) h := by
  have hone : Number.read? "-1".toList = some (-1) := by
    decide +kernel
  refine .value rfl ?_ ?_
  · rw [read, hone]
    rfl
  · rw [Piece.read, hone]
    rfl

/-- A product with minus one in a group has the value with its sign changed. -/
theorem ReadAlike.negated (hp : p.Over t) : ReadAlike t (- ·) p p.negated := by
  intro h
  obtain ⟨b, k, hb⟩ := exists_readsAs hp h
  exact ⟨_, _, k, hb, ((readsAs_minusOne t h).binary hb .multiply).group,
    Number.neg_one_mul _, rfl⟩

theorem ReadAlike.negative {digits : String} (h : Numeral digits.toList) :
    ReadAlike t (- ·) (.number digits) (.number (String.ofList ('-' :: digits.toList))) := by
  intro host
  obtain ⟨x, hx, hneg⟩ := h.exists_read
  rw [← String.toList_ofList (l := '-' :: digits.toList)] at hneg
  refine ⟨.value x, .value (-x), host, .value rfl ?_ ?_, .value rfl ?_ ?_, rfl, rfl⟩
  · rw [read, hx]
    rfl
  · rw [Piece.read, hx]
    rfl
  · rw [read, hneg]
    rfl
  · rw [Piece.read, hneg]
    rfl

theorem ReadAlike.product (h : ReadAlike t (- ·) a n) :
    ReadAlike t id a (.binary .multiply (.number "-1") n) := by
  intro host
  obtain ⟨b, c, k, hb, hc, heval, hprinted⟩ := h host
  refine ⟨b, _, k, hb, (readsAs_minusOne t host).binary hc .multiply, ?_, hprinted⟩
  change -1 * c.tree.eval = b.tree.eval
  rw [Number.neg_one_mul, heval, Number.neg_neg_eq]

/-- In a product the factor minus one belongs to what stands before it. -/
theorem ReadAlike.product_right (hp : p.Over t) (h : ReadAlike t (- ·) a n) :
    ReadAlike t id (.binary .multiply p a)
      (.binary .multiply (.binary .multiply p (.number "-1")) n) := by
  intro host
  obtain ⟨bp, j, hbp⟩ := exists_readsAs hp host
  obtain ⟨b, c, k, hb, hc, heval, hprinted⟩ := h j
  refine ⟨_, _, k, hbp.binary hb .multiply,
    (hbp.binary (readsAs_minusOne t j) .multiply).binary hc .multiply, ?_, ?_⟩
  · change bp.tree.eval * (-1) * c.tree.eval = bp.tree.eval * b.tree.eval
    rw [heval, Number.mul_neg_one_mul_neg]
  · simp [Bracketed.tree, Tree.printed, hprinted]

end

theorem exists_scanned_negated {t : Table W} (ht : t.Named) {e : Formula} {o : List Char}
    (h : Written e operandLevel o) (he : e.Over t) :
    ∃ a n, Scanned t operandLevel o a ∧ Scanned t negationLevel ('-' :: o) n ∧
      ReadAlike t (- ·) a n := by
  rcases h.starts ht he with ⟨digits, rfl, rfl⟩ | hstart
  · exact ⟨_, _, .literal he, .negative he, .negative he⟩
  · obtain ⟨a, ha⟩ := exists_scanned ht h he
    exact ⟨a, _, ha, ha.negated hstart, .negated ha.readable⟩

theorem Scanned.doubled {t : Table W} {o : List Char}
    (h : Scanned t negationLevel ('-' :: o) n) :
    Scanned t (strength .multiply) ('-' :: '-' :: o) (.binary .multiply (.number "-1") n) where
  scans := Scan.scans_minus_minus h.scans (by decide)
  ends := h.ends.append_left [.number "-1", .operator .multiply]
  ordered := ⟨trivial, h.ordered, fitsLeft_operandLevel _, fitsRight_mono (by decide) h.level⟩
  readable := ⟨over_minusOne t, h.readable⟩
  level := Nat.le_refl _

/-- The characters `cs` and `ds` are scanned to phrases that are read alike. -/
structure Doubled (t : Table W) (level inner : Nat) (cs ds : List Char) (p q : Phrase) :
    Prop where
  plain : Scanned t level cs p
  doubled : Scanned t inner ds q
  alike : ReadAlike t id p q

section
variable {t : Table W} {level inner : Nat} {cs ds : List Char} {p q : Phrase}

theorem Doubled.group (h : Doubled t level inner cs ds p q) :
    Doubled t operandLevel operandLevel ('(' :: (cs ++ [')'])) ('(' :: (ds ++ [')']))
      (.group p) (.group q) :=
  ⟨h.plain.group, h.doubled.group, h.alike.group⟩

theorem Doubled.call (ht : t.Named) {f : String} (hf : Builtin.isName f = true)
    (h : Doubled t level inner cs ds p q) :
    Doubled t operandLevel operandLevel (f.toList ++ '(' :: (cs ++ [')']))
      (f.toList ++ '(' :: (ds ++ [')'])) (.call f p) (.call f q) :=
  ⟨h.plain.call ht hf, h.doubled.call ht hf, h.alike.call hf (h.plain.call ht hf).readable.2.1⟩

theorem Doubled.negated (h : Doubled t operandLevel operandLevel cs ds p q)
    (hcs : ∃ c tail, cs = c :: tail ∧ (c = '(' ∨ Lexeme.isNameChar c = true))
    (hds : ∃ c tail, ds = c :: tail ∧ (c = '(' ∨ Lexeme.isNameChar c = true)) :
    Doubled t negationLevel negationLevel ('-' :: cs) ('-' :: ds) p.negated q.negated :=
  ⟨h.plain.negated hcs, h.doubled.negated hds,
    ((ReadAlike.refl (over_minusOne t)).binary h.alike .multiply).group⟩

theorem Doubled.left {op : Operator} {sign : Char} (hsign : Operator.ofChar? sign = some op)
    (h : Doubled t level inner cs ds p q) (hlevel : FitsLeft op level)
    (hinner : FitsLeft op inner) {right : Nat} {es : List Char} {r : Phrase}
    (hr : Scanned t right es r) (hright : FitsRight op right) :
    Doubled t (strength op) (strength op) (cs ++ sign :: es) (ds ++ sign :: es)
      (.binary op p r) (.binary op q r) :=
  ⟨h.plain.binary hsign hlevel hr hright, h.doubled.binary hsign hinner hr hright,
    h.alike.binary (.refl hr.readable) op⟩

theorem Doubled.right {op : Operator} {sign : Char} (hsign : Operator.ofChar? sign = some op)
    {left : Nat} {es : List Char} {l : Phrase} (hl : Scanned t left es l)
    (hleft : FitsLeft op left) (h : Doubled t level inner cs ds p q)
    (hlevel : FitsRight op level) (hinner : FitsRight op inner) :
    Doubled t (strength op) (strength op) (es ++ sign :: cs) (es ++ sign :: ds)
      (.binary op l p) (.binary op l q) :=
  ⟨hl.binary hsign hleft h.plain hlevel, hl.binary hsign hleft h.doubled hinner,
    (ReadAlike.refl hl.readable).binary h.alike op⟩

/-- After a product sign the factor minus one goes to what stands on its left. -/
theorem Doubled.product_right {sign : Char} (hsign : Operator.ofChar? sign = some .multiply)
    {left : Nat} {es o : List Char} {l a n : Phrase} (hl : Scanned t left es l)
    (hleft : FitsLeft .multiply left) (ha : Scanned t operandLevel o a)
    (hn : Scanned t negationLevel ('-' :: o) n) (h : ReadAlike t (- ·) a n) :
    Doubled t (strength .multiply) (strength .multiply) (es ++ sign :: o)
      (es ++ sign :: '-' :: '-' :: o) (.binary .multiply l a)
      (.binary .multiply (.binary .multiply l (.number "-1")) n) where
  plain := hl.binary hsign hleft ha (fitsRight_operandLevel _)
  doubled := {
    scans := by
      have hscans := Scan.scans_binary hsign hl.scans hl.ends hn.doubled.scans
        (strength_ne_operandLevel .multiply)
      simpa [tokens] using hscans
    ends := by
      have hends := hn.ends.append_left
        (l.tokens ++ [.operator .multiply, .number "-1", .operator .multiply])
      simpa [tokens] using hends
    ordered := ⟨⟨hl.ordered, trivial, fitsLeft_mono hleft hl.level, fitsRight_operandLevel _⟩,
      hn.ordered, Nat.le_refl _, fitsRight_mono (by decide) hn.level⟩
    readable := ⟨⟨hl.readable, over_minusOne t⟩, hn.readable⟩
    level := Nat.le_refl _ }
  alike := h.product_right hl.readable

end

/-- Every operator but division, remainder and power may have a product on its right, or is
the multiplication itself. -/
theorem fits_of_before {op : Operator} {sign : Char} (hsign : Operator.ofChar? sign = some op)
    (h : sign ∉ ['/', '÷', '%', '^']) : op = .multiply ∨ FitsRight op (strength .multiply) := by
  unfold Operator.ofChar? at hsign
  split at hsign
  all_goals cases hsign
  all_goals first | exact .inl rfl | exact .inr (by decide) | exact absurd (by decide) h

/-- Every operator but power may have a product on its left. -/
theorem fits_of_after {op : Operator} {sign : Char} (hsign : Operator.ofChar? sign = some op)
    (h : sign ≠ '^') : FitsLeft op (strength .multiply) := by
  unfold Operator.ofChar? at hsign
  split at hsign
  all_goals cases hsign
  all_goals first | decide | exact absurd rfl h

theorem mem_getLast?_append {c : Char} {u : List Char} (h : c ∈ u.getLast?) (w : List Char) :
    c ∈ (w ++ u).getLast? := by
  rw [Option.mem_def] at h
  rw [List.getLast?_append, h]
  rfl

/-- What is written around an operand is scanned to phrases that are read alike, once as it
stands and once with two minus signs before the operand. The level is the same, unless
there is nothing but the operand. -/
theorem exists_doubled {t : Table W} (ht : t.Named) {e : Formula} {level : Nat}
    {u o v : List Char} (h : Around e level u o v) (he : e.Over t)
    (hbefore : ∀ c ∈ u.getLast?, c ∉ ['/', '÷', '%', '^']) (hafter : v.head? ≠ some '^') :
    ∃ inner p q, Doubled t level inner (u ++ o ++ v) (u ++ '-' :: '-' :: o ++ v) p q ∧
      (inner = level ∨ inner = strength .multiply ∧ u = [] ∧ v = []) := by
  have hafter_append {v w : List Char} (h : (v ++ w).head? ≠ some '^') : v.head? ≠ some '^' := by
    intro hv
    exact h (by rw [List.head?_append, hv]; rfl)
  induction h with
  | here hw =>
      obtain ⟨a, n, ha, hn, halike⟩ := exists_scanned_negated ht hw he
      refine ⟨_, a, _, ⟨?_, ?_, halike.product⟩, .inr ⟨rfl, rfl, rfl⟩⟩
      · simpa using ha
      · simpa using hn.doubled
  | call f _ ih =>
      obtain ⟨_, p, q, hpq, _⟩ := ih he.2
        (fun c hc => hbefore c (mem_getLast?_append (mem_getLast?_append hc ['(']) _))
        (hafter_append hafter)
      exact ⟨_, _, _, by simpa using hpq.call ht he.1, .inl rfl⟩
  | group _ ih =>
      obtain ⟨_, p, q, hpq, _⟩ := ih he
        (fun c hc => hbefore c (mem_getLast?_append hc ['('])) (hafter_append hafter)
      exact ⟨_, _, _, by simpa using hpq.group, .inl rfl⟩
  | parentheses _ ih =>
      obtain ⟨_, p, q, hpq, _⟩ := ih he
        (fun c hc => hbefore c (mem_getLast?_append hc ['('])) (hafter_append hafter)
      exact ⟨_, _, _, by simpa using hpq.group, .inl rfl⟩
  | @negate e u o v ha hu ih =>
      obtain ⟨inner, p, q, hpq, hinner⟩ := ih he
        (fun c hc => hbefore c (mem_getLast?_append hc ['-'])) hafter
      obtain rfl : inner = operandLevel := hinner.resolve_right fun h => hu h.2.1
      obtain ⟨c, tail, rfl, hc⟩ := ha.starts he hu
      have hnegated := hpq.negated ⟨c, _, rfl, hc⟩ ⟨c, _, rfl, hc⟩
      exact ⟨_, _, _, hnegated, .inl rfl⟩
  | @left op sign l r left right u o v ds hsign ha hleft hw hright ih =>
      obtain ⟨inner, p, q, hpq, hinner⟩ := ih he.1 hbefore (hafter_append hafter)
      obtain ⟨r, hr⟩ := exists_scanned ht hw he.2
      have hfits : FitsLeft op inner := by
        rcases hinner with rfl | ⟨rfl, -, rfl⟩
        · exact hleft
        · exact fits_of_after hsign fun hpower => hafter (congrArg some hpower)
      exact ⟨_, _, _, by simpa using hpq.left hsign hleft hfits hr hright, .inl rfl⟩
  | @right op sign l r left right cs u o v hsign hw hleft ha hright ih =>
      obtain ⟨l, hl⟩ := exists_scanned ht hw he.1
      obtain ⟨inner, p, q, hpq, hinner⟩ := ih he.2
        (fun c hc => hbefore c (mem_getLast?_append (mem_getLast?_append hc [sign]) _)) hafter
      rcases hinner with rfl | ⟨rfl, rfl, rfl⟩
      · exact ⟨_, _, _, by simpa using hpq.right hsign hl hleft hright hright, .inl rfl⟩
      · rcases fits_of_before hsign (hbefore sign (by simp)) with rfl | hfits
        · obtain rfl := ha.eq_operandLevel rfl rfl
          have hw : Written r operandLevel o := by simpa using ha.written
          obtain ⟨a, n, ha, hn, halike⟩ := exists_scanned_negated ht hw he.2
          exact ⟨_, _, _, by simpa using Doubled.product_right hsign hl hleft ha hn halike,
            .inl rfl⟩
        · exact ⟨_, _, _, by simpa using hpq.right hsign hl hleft hright hfits, .inl rfl⟩

end Phrase

namespace Session
open Text

/-- In a text that spells a formula over the names of a reachable session, two minus signs may
be put before an operand that begins the text or stands right after an opening parenthesis or
a binary operator. The value stays the same, and so do the calls and what is printed, whether
missing parentheses are completed or not, unless the operand stands right after a sign of
division, remainder or power or right before a sign of power. -/
theorem evaluateExpression_doubled {s : Session W} (hs : s.Reachable) {e : Formula}
    (he : e.Over s.table) {level : Nat} {u o v : List Char} (h : Around e level u o v)
    (hbefore : ∀ c ∈ u.getLast?, c ∉ ['/', '÷', '%', '^']) (hafter : v.head? ≠ some '^')
    {text doubled : String}
    (htext : (dropBlanks text.toList).map Char.toLower = (u ++ o ++ v).map Char.toLower)
    (hdoubled : (dropBlanks doubled.toList).map Char.toLower =
      (u ++ '-' :: '-' :: o ++ v).map Char.toLower) (host : Host W) :
    ∃ x k, (s.evaluateExpression text).outcome host = (.ok x, k) ∧
      (s.evaluateExpression doubled).outcome host = (.ok x, k) := by
  obtain ⟨_, p, q, hpq, _⟩ := Phrase.exists_doubled hs.named h he hbefore hafter
  obtain ⟨b, c, k, hb, hc, heval, hprinted⟩ := hpq.alike host
  have hplain := h.written.plain hs.named he
  have hplain' : ∀ d ∈ u ++ '-' :: '-' :: o ++ v, Plain d := by
    intro d hd
    by_cases hminus : d = '-'
    · rw [hminus]
      decide +kernel
    · exact hplain d (by simpa [hminus] using hd)
  refine ⟨b.tree.eval, ((Act.recordPrinted b.tree.printed : Act W Unit).run k).2, ?_, ?_⟩
  · rw [evaluateExpression, Expression.value_plain (not_mem_of_spelled hplain htext)]
    exact hpq.plain.outcome_plainValue (normalize_of_spelled hplain htext) hb _
  · rw [evaluateExpression, Expression.value_plain (not_mem_of_spelled hplain' hdoubled),
      hpq.doubled.outcome_plainValue (normalize_of_spelled hplain' hdoubled) hc, heval, hprinted]
    rfl

theorem evaluateExpression_doubled_factor :
    let s : Session Unit := create {}
    let e : Formula := .binary .add (.binary .multiply (.literal "2") (.name "pi")) (.literal "1")
    let u := "2*".toList
    let o := "pi".toList
    let v := "+1".toList
    let text := "2 * PI + 1"
    let doubled := "2 * - -PI + 1"
    e.Over s.table ∧ Around e (strength .add) u o v ∧
      (∀ c ∈ u.getLast?, c ∉ ['/', '÷', '%', '^']) ∧ v.head? ≠ some '^' ∧
      (dropBlanks text.toList).map Char.toLower = (u ++ o ++ v).map Char.toLower ∧
      (dropBlanks doubled.toList).map Char.toLower =
        (u ++ '-' :: '-' :: o ++ v).map Char.toLower ∧
      ∃ x k, (s.evaluateExpression text).outcome ⟨(), []⟩ = (.ok x, k) ∧
        (s.evaluateExpression doubled).outcome ⟨(), []⟩ = (.ok x, k) := by
  intro s e u o v text doubled
  have hpi : (s.table.find? "pi").isSome = true := by
    decide +kernel
  have he : e.Over s.table :=
    ⟨⟨⟨by simp, by simp, by simp⟩, hpi⟩, ⟨by simp, by simp, by simp⟩⟩
  have hmultiply : Operator.ofChar? '*' = some .multiply := rfl
  have hadd : Operator.ofChar? '+' = some .add := rfl
  have h : Around e (strength .add) u o v :=
    .left hadd (.right hmultiply (.literal "2") (by decide) (.here (.name "pi")) (by decide))
      (by decide) (.literal "1") (by decide)
  have hbefore : ∀ c ∈ u.getLast?, c ∉ ['/', '÷', '%', '^'] := by
    intro c hc
    obtain rfl : '*' = c := Option.some.inj hc
    decide
  have hafter : v.head? ≠ some '^' := by
    decide
  have htext : (dropBlanks text.toList).map Char.toLower = (u ++ o ++ v).map Char.toLower := by
    decide +kernel
  have hdoubled : (dropBlanks doubled.toList).map Char.toLower =
      (u ++ '-' :: '-' :: o ++ v).map Char.toLower := by
    decide +kernel
  exact ⟨he, h, hbefore, hafter, htext, hdoubled,
    evaluateExpression_doubled (.create {}) he h hbefore hafter htext hdoubled ⟨(), []⟩⟩

/-- After a division sign only the factor minus one is divided by, and the operand is
multiplied with. -/
theorem exists_doubled_quotient :
    let s : Session Unit := create {}
    let e : Formula := .binary .divide (.literal "8") (.literal "2")
    s.Reachable ∧ e.Over s.table ∧
      Around e (strength .divide) "8/".toList "2".toList [] ∧
      ((s.evaluateExpression "8/2").outcome ⟨(), []⟩).1.toOption = some 4 ∧
      ((s.evaluateExpression "8/--2").outcome ⟨(), []⟩).1.toOption = some 16 ∧
      (4 : Float) ≠ 16 := by
  intro s e
  have hdivide : Operator.ofChar? '/' = some .divide := rfl
  refine ⟨.create {}, ⟨⟨by simp, by simp, by simp⟩, ⟨by simp, by simp, by simp⟩⟩,
    .right hdivide (.literal "8") (by decide) (.here (.literal "2")) (by decide), ?_, ?_, ?_⟩
  · decide +kernel
  · decide +kernel
  · decide +kernel

end Session
end RuleSheet
