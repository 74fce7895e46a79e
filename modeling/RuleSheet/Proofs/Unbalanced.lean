import RuleSheet.Proofs.Grammar
import RuleSheet.Proofs.Postfix.Parentheses
import RuleSheet.Proofs.Token.Written

/-!
# Unbalanced texts without balancing

In an expression of the grammar a closing parenthesis ends an operand. So without balancing
a text whose own parentheses are not nested has no value, even where the parentheses that
the scanner adds make its tokens nested. The exception is the one of the grammar: of two
numerals side by side one can stand for the operand that an added group lacks.
-/
namespace RuleSheet
variable {W : Type}

namespace Token

/-- The token `next` closes nothing but after the end of an operand. -/
def MayClose (last next : Token) : Prop :=
  next = closing → last.endsOperand = true

/-- The tokens begin with no closing parenthesis, they end with the end of an operand, and
between the two every closing parenthesis follows the end of one. -/
structure Filled (tokens : List Token) : Prop where
  first : ∃ t ∈ tokens.head?, t ≠ closing
  last : ∃ t ∈ tokens.getLast?, t.endsOperand = true
  closings : tokens.IsChain MayClose

theorem Filled.singleton {t : Token} (hc : t ≠ closing) (he : t.endsOperand = true) :
    Filled [t] :=
  ⟨⟨t, rfl, hc⟩, ⟨t, rfl, he⟩, .singleton t⟩

theorem Filled.cons {tokens : List Token} (h : Filled tokens) {t : Token} (ht : t ≠ closing) :
    Filled (t :: tokens) := by
  obtain ⟨first, hfirst, hne⟩ := h.first
  obtain ⟨last, hlast, hends⟩ := h.last
  refine ⟨⟨t, rfl, ht⟩, ⟨last, ?_, hends⟩, h.closings.cons fun next hnext hc => ?_⟩
  · rw [List.getLast?_cons, Option.mem_def.mp hlast]
    rfl
  · obtain rfl : first = next := Option.some.inj (hfirst.symm.trans hnext)
    exact absurd hc hne

/-- After the end of an operand anything may come that ends with the end of one. -/
theorem Filled.append {l r : List Token} (hl : Filled l)
    (hlast : ∃ t ∈ r.getLast?, t.endsOperand = true) (hr : r.IsChain MayClose) :
    Filled (l ++ r) := by
  obtain ⟨first, hfirst, hne⟩ := hl.first
  obtain ⟨last, hmem, hends⟩ := hl.last
  obtain ⟨t, ht, htends⟩ := hlast
  refine ⟨⟨first, ?_, hne⟩, ⟨t, ?_, htends⟩, hl.closings.append hr fun u hu next _ _ => ?_⟩
  · rw [List.head?_append, Option.mem_def.mp hfirst]
    rfl
  · rw [List.getLast?_append, Option.mem_def.mp ht]
    rfl
  · obtain rfl : last = u := Option.some.inj (hmem.symm.trans hu)
    exact hends

theorem Filled.enclosed {tokens : List Token} (h : Filled tokens) :
    Filled (opening :: (tokens ++ [closing])) :=
  (h.append ⟨closing, rfl, rfl⟩ (.singleton closing)).cons (by decide)

theorem Filled.sound {tokens : List Token} (h : Filled tokens)
    (hn : Nested opening closing tokens) : Sound tokens.reverse where
  opened q hq := by
    have hprefix : q.reverse <+: tokens := by
      rw [← List.reverse_reverse tokens]
      exact List.reverse_prefix.mpr hq
    have hle := hn.prefixes _ hprefix
    rwa [List.count_reverse, List.count_reverse, Nat.zero_add] at hle
  filled q hq := by
    have hprefix : q.reverse ++ [closing] <+: tokens := by
      rw [← List.reverse_cons, ← List.reverse_reverse tokens]
      exact List.reverse_prefix.mpr hq
    obtain ⟨more, hmore⟩ := hprefix
    cases q with
    | nil =>
        obtain ⟨first, hfirst, hne⟩ := h.first
        rw [← hmore] at hfirst
        exact absurd (Option.some.inj hfirst).symm hne
    | cons last before =>
        refine ⟨last, rfl, ?_⟩
        have hchain := h.closings
        rw [← hmore, List.reverse_cons, List.append_assoc, List.append_assoc] at hchain
        exact (List.isChain_cons_cons.mp (List.isChain_append.mp hchain).2.1).1 rfl

end Token

theorem Derives.filled {t : Table W} (ht : ∀ n, Builtin.isName n = true → t.get n = none)
    {tokens : List Token} (h : Derives t tokens) : Token.Filled tokens := by
  induction h with
  | number text => exact .singleton (by simp) rfl
  | @symbol n hn =>
      refine .singleton (by simp) ?_
      have hnot : Builtin.isName n = false := by
        rw [Bool.eq_false_iff]
        intro hb
        rw [Table.contains, ht n hb] at hn
        cases hn
      simp [Token.endsOperand, hnot]
  | @call f hf e _ ih => exact ih.enclosed.cons (by simp)
  | @group e _ ih => exact ih.enclosed
  | @binary op l r _ _ ihl ihr =>
      have hr := ihr.cons (t := .operator op) (by simp)
      exact ihl.append hr.last hr.closings

namespace Session

theorem nested_of_value {s : Session W} (hs : s.Reachable)
    (hb : s.settings.autoBalance = false) {text : String} (hq : '?' ∉ text.toList)
    (hapart : (Token.scan false text.toList).IsChain Token.NotNumerals) {h k : Host W} {x : Float}
    (hv : (s.evaluateExpression text).outcome h = (.ok x, k)) : Nested '(' ')' text.toList := by
  rw [← hb] at hapart
  have hd := derives_of_value hs hq hv hapart
  rw [evaluateExpression, Expression.value_plain hq] at hv
  obtain ⟨items, j, hitems, _⟩ := Expression.outcome_plainValue.mp hv
  rw [hb] at hd hitems
  have hnested : Nested .opening .closing (Token.scan false text.toList) := by
    rcases Postfix.ofTokens_cases s.table (Token.scan false text.toList) h
      with ⟨e, _, hout, _⟩ | ⟨_, _, _, hn⟩
    · rw [hout] at hitems
      cases congrArg Prod.fst hitems
    · exact hn
  exact Token.nested_of_sound
    ((hd.filled fun n hn => hs.named.get_of_isName hn).sound hnested) hnested

/-- Without balancing a text whose parentheses are not nested is refused, unless two numerals
stand side by side in it. -/
theorem exists_error_of_unbalanced {s : Session W} (hs : s.Reachable)
    (hb : s.settings.autoBalance = false) {text : String} (hq : '?' ∉ text.toList)
    (hn : ¬Nested '(' ')' text.toList)
    (hapart : (Token.scan false text.toList).IsChain Token.NotNumerals) (h : Host W) :
    ∃ e k, (s.evaluateExpression text).outcome h = (.error e, k) := by
  rcases hv : (s.evaluateExpression text).outcome h with ⟨e | x, k⟩
  · exact ⟨e, k, rfl⟩
  · exact absurd (nested_of_value hs hb hq hapart hv) hn

/-- The parenthesis closes the group that the scanner has opened for the operand of the
function, so the tokens are nested although the text is not. -/
theorem exists_error_of_added_group :
    let s : Session Unit := create { autoBalance := false }
    let text := "2 abs)"
    let h : Host Unit := ⟨(), []⟩
    s.Reachable ∧ s.settings.autoBalance = false ∧ '?' ∉ text.toList ∧
      ¬Nested '(' ')' text.toList ∧ Nested .opening .closing (Token.scan false text.toList) ∧
      (Token.scan false text.toList).IsChain Token.NotNumerals ∧
      ∃ e k, (s.evaluateExpression text).outcome h = (.error e, k) := by
  intro s text h
  have hscan : Token.scan false text.toList =
      [.number "2", .operator .multiply, .name "abs", .opening, .closing] := by
    decide +kernel
  have hquestion : '?' ∉ text.toList := by decide
  have hnot : ¬Nested '(' ')' text.toList := fun hn => absurd hn.total (by decide)
  have hnested : Nested .opening .closing (Token.scan false text.toList) := by
    rw [hscan]
    simp [Closes.cons_iff]
  have hapart : (Token.scan false text.toList).IsChain Token.NotNumerals := by
    rw [hscan]
    simp [Token.NotNumerals, Token.isNumber]
  exact ⟨.create _, rfl, hquestion, hnot, hnested, hapart,
    exists_error_of_unbalanced (.create _) rfl hquestion hnot hapart h⟩

/-- The same with a second numeral in place of the operand. -/
theorem exists_value_of_unbalanced :
    ∃ (s : Session Unit) (text : String) (h k : Host Unit) (x : Float),
      s.Reachable ∧ s.settings.autoBalance = false ∧ '?' ∉ text.toList ∧
      ¬Nested '(' ')' text.toList ∧ (s.evaluateExpression text).outcome h = (.ok x, k) := by
  let s : Session Unit := create { autoBalance := false }
  have hok : ((s.evaluateExpression "1.2.3abs)").outcome ⟨(), []⟩).1.isOk = true := by
    decide +kernel
  rcases hv : (s.evaluateExpression "1.2.3abs)").outcome ⟨(), []⟩ with ⟨e | x, k⟩
  · rw [hv] at hok
    cases hok
  · exact ⟨s, "1.2.3abs)", ⟨(), []⟩, k, x, .create _, rfl, by decide,
      fun hn => absurd hn.total (by decide), hv⟩

end Session
end RuleSheet
