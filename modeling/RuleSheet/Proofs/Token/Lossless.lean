import RuleSheet.Proofs.Token.Turn

/-!
# Nothing of the text is lost

The tokens of an expression, written one after the other, are the text of the expression
with the shorthands made explicit. What is added are parentheses, multiplications and the
one of a minus one; what is left out are plus signs where an operand is expected. Every
other character is written once and in its place, whatever the text is.
-/
namespace RuleSheet
open Text

/-- The second list is the first one with characters of `extra` put in. -/
inductive Inserted (extra : List Char) : List Char → List Char → Prop
  | nil : Inserted extra [] []
  | keep (c : Char) {a b : List Char} : Inserted extra a b → Inserted extra (c :: a) (c :: b)
  | add {c : Char} (hc : c ∈ extra) {a b : List Char} :
      Inserted extra a b → Inserted extra a (c :: b)

theorem Inserted.refl (extra a : List Char) : Inserted extra a a := by
  induction a with
  | nil => exact .nil
  | cons c rest ih => exact .keep c ih

theorem Inserted.subset {extra a b : List Char} (h : Inserted extra a b) : a ⊆ b := by
  induction h with
  | nil => exact List.Subset.refl _
  | keep c _ ih => exact List.cons_subset_cons c ih
  | add _ _ ih => exact List.subset_cons_of_subset _ ih

theorem Inserted.mem_or {extra a b : List Char} (h : Inserted extra a b) :
    ∀ c ∈ b, c ∈ a ∨ c ∈ extra := by
  induction h with
  | nil => simp
  | keep c _ ih =>
      intro d hd
      rcases List.mem_cons.mp hd with rfl | hd
      · exact .inl (.head _)
      · exact (ih d hd).imp_left (.tail _)
  | add hc _ ih =>
      intro d hd
      rcases List.mem_cons.mp hd with rfl | hd
      · exact .inr hc
      · exact ih d hd

theorem Inserted.append {extra a b c d : List Char} (hab : Inserted extra a b)
    (hcd : Inserted extra c d) : Inserted extra (a ++ c) (b ++ d) := by
  induction hab with
  | nil => exact hcd
  | keep c _ ih => exact .keep c ih
  | add hc _ ih => exact .add hc ih

namespace Token

/-- What may be added to the characters of a text. -/
def shorthand : List Char := ['(', ')', '*', '1']

/-- An operand has to come after these tokens: at their start, after an operator and after an
opening parenthesis. -/
def SignExpected (tokens : List Token) : Prop :=
  ∀ t ∈ tokens.getLast?, t = .opening ∨ ∃ op, t = .operator op

/-- The tokens copy the text. Each token is written with characters of the text and with
shorthand that was made explicit, and between the tokens only a plus sign can be left out,
where an operand is expected. -/
inductive Copies : List Char → List Token → Prop
  | start : Copies [] []
  | token {text taken : List Char} {tokens : List Token} {t : Token} :
      Copies text tokens → Inserted shorthand taken t.text →
      Copies (text ++ taken) (tokens ++ [t])
  | plus {text : List Char} {tokens : List Token} :
      Copies text tokens → SignExpected tokens → Copies (text ++ ['+']) tokens

namespace Copies
variable {text : List Char} {tokens : List Token}

theorem keep (h : Copies text tokens) (t : Token) : Copies (text ++ t.text) (tokens ++ [t]) :=
  h.token (.refl _ _)

theorem add (h : Copies text tokens) {t : Token} (ht : Inserted shorthand [] t.text) :
    Copies text (tokens ++ [t]) := by
  have hadd := h.token ht
  rwa [List.append_nil] at hadd

theorem add_all (h : Copies text tokens) {more : List Token}
    (hmore : ∀ t ∈ more, Inserted shorthand [] t.text) : Copies text (tokens ++ more) := by
  induction more generalizing tokens with
  | nil => rwa [List.append_nil]
  | cons t rest ih =>
      rw [← List.singleton_append, ← List.append_assoc]
      exact ih (h.add (hmore t (.head _))) fun u hu => hmore u (.tail _ hu)

/-- What the tokens are written with, one after the other, is the text without some plus signs
and with the shorthand added. -/
theorem concatenated (h : Copies text tokens) :
    ∃ kept, Inserted ['+'] kept text ∧ Inserted shorthand kept (tokens.flatMap Token.text) := by
  induction h with
  | start => exact ⟨[], .nil, .nil⟩
  | @token _ taken _ t _ ht ih =>
      obtain ⟨kept, hkept, hshown⟩ := ih
      refine ⟨kept ++ taken, hkept.append (.refl _ taken), ?_⟩
      rw [List.flatMap_append, List.flatMap_singleton]
      exact hshown.append ht
  | plus _ _ ih =>
      obtain ⟨kept, hkept, hshown⟩ := ih
      refine ⟨kept, ?_, hshown⟩
      have hplus : Inserted ['+'] [] ['+'] := .add (.head _) .nil
      have hdropped := hkept.append hplus
      rwa [List.append_nil] at hdropped

theorem mem_or (h : Copies text tokens) :
    ∀ c ∈ tokens.flatMap Token.text, c ∈ text ∨ c ∈ shorthand := by
  obtain ⟨kept, hkept, hshown⟩ := h.concatenated
  exact fun c hc => (hshown.mem_or c hc).imp_left fun hk => hkept.subset hk

end Copies

theorem inserted_opening : Inserted shorthand [] opening.text :=
  .add (.head _) .nil

theorem inserted_closing : Inserted shorthand [] closing.text :=
  .add (.tail _ (.head _)) .nil

theorem inserted_multiply : Inserted shorthand [] (operator .multiply).text :=
  .add (.tail _ (.tail _ (.head _))) .nil

theorem inserted_minusOne : Inserted shorthand ['-'] (number "-1").text :=
  .keep '-' (.add (.tail _ (.tail _ (.tail _ (.head _)))) .nil)

/-- Parentheses that are added before all tokens change nothing of what follows. -/
theorem Copies.openings {text : List Char} {tokens : List Token} (h : Copies text tokens)
    (count : Nat) : Copies text (List.replicate count opening ++ tokens) := by
  induction h with
  | start =>
      rw [List.append_nil, ← List.nil_append (List.replicate count opening)]
      exact .add_all .start fun t ht => List.eq_of_mem_replicate ht ▸ inserted_opening
  | token _ ht ih =>
      rw [← List.append_assoc]
      exact ih.token ht
  | @plus _ tokens _ he ih =>
      refine ih.plus fun t ht => ?_
      rw [List.getLast?_append] at ht
      cases hlast : tokens.getLast? with
      | none =>
          rw [hlast, Option.none_or] at ht
          exact .inl (List.eq_of_mem_replicate (List.mem_of_getLast? ht))
      | some u =>
          rw [hlast, Option.some_or] at ht
          exact he t (hlast.trans ht)

end Token

namespace Operator

/-- The signs for products and quotients that have others in their place. -/
def plainSign (c : Char) : Char :=
  if c = '×' then '*' else if c = '÷' then '/' else c

theorem plainSign_of_ofChar? {c : Char} {op : Operator} (h : ofChar? c = some op) :
    plainSign c = op.symbol := by
  unfold ofChar? at h
  split at h
  all_goals first | (obtain rfl := Option.some.inj h; decide) | cases h

theorem plainSign_of_none {c : Char} (h : ofChar? c = none) : plainSign c = c := by
  have hmultiply : c ≠ '×' := by
    rintro rfl
    cases h
  have hdivide : c ≠ '÷' := by
    rintro rfl
    cases h
  rw [plainSign, if_neg hmultiply, if_neg hdivide]

theorem map_plainSign {cs : List Char} (h : ∀ c ∈ cs, Lexeme.isNamePart c = true) :
    cs.map plainSign = cs := by
  have hself : ∀ c ∈ cs, plainSign c = id c :=
    fun c hc => plainSign_of_none (Lexeme.ofChar?_of_isNamePart (h c hc))
  rw [List.map_congr_left hself, List.map_id]

end Operator

namespace Scan
open Token Operator

@[simp] theorem inOrder_push (s : Scan) (t : Token) : (s.push t).inOrder = s.inOrder ++ [t] :=
  List.reverse_cons

theorem signExpected_inOrder {s : Scan} (he : s.expectsOperand = true) :
    SignExpected s.inOrder := by
  intro t ht
  rw [inOrder, List.getLast?_reverse, Option.mem_def] at ht
  rw [expectsOperand, ht] at he
  cases t with
  | operator op => exact .inr ⟨op, rfl⟩
  | opening => exact .inl rfl
  | _ => cases he

theorem copies_settle {text : List Char} {tokens : List Token} {depth : Int} {closers : List Int}
    (h : Copies text tokens.reverse) : Copies text (settle tokens depth closers).inOrder := by
  induction closers generalizing tokens depth with
  | nil => exact h
  | cons d rest ih =>
      rw [settle]
      split
      · refine ih ?_
        rw [List.reverse_cons]
        exact h.add inserted_closing
      · exact h

theorem copies_operandStart {text : List Char} {s : Scan} (h : Copies text s.inOrder)
    (numeral : Bool) : Copies text (s.operandStart numeral).inOrder := by
  unfold operandStart
  split
  · rw [inOrder_push]
    exact h.add inserted_multiply
  · exact h

/-- A lexeme that becomes a token as it stands, with the multiplication that it may need. -/
theorem copies_lexeme {text : List Char} {s : Scan} (h : Copies text s.inOrder) (numeral : Bool)
    (t : Token) : Copies (text ++ t.text) ((s.operandStart numeral).push t).inOrder := by
  rw [inOrder_push]
  exact (copies_operandStart h numeral).keep t

theorem copies_negating {text : List Char} {s : Scan} (h : Copies text s.inOrder) :
    Copies (text ++ ['-']) ((s.push (.number "-1")).push (.operator .multiply)).inOrder := by
  rw [inOrder_push, inOrder_push]
  exact (h.token inserted_minusOne).add inserted_multiply

theorem Turn.copies {s s' : Scan} {after taken text : List Char} (ht : Turn s after taken s')
    (h : Copies text s.inOrder) : Copies (text ++ taken.map plainSign) s'.inOrder := by
  cases ht with
  | @numeral word sign digits hword hsign hl =>
      have hplain : word.toList.map plainSign = word.toList := by
        rw [hword, List.map_append, map_plainSign hl.isNamePart]
        rcases hsign with rfl | ⟨rfl, _⟩
        · rfl
        · rfl
      rw [hplain]
      exact copies_settle (copies_lexeme h true (.number word))
  | @symbol n hn hl =>
      rw [map_plainSign hl.isNamePart]
      exact copies_settle (copies_lexeme h false (.name n))
  | @call n hn ha hl =>
      rw [map_plainSign hl.isNamePart]
      exact copies_lexeme h false (.name n)
  | @capture n hn hl =>
      have hname := copies_lexeme h false (.name n)
      rw [map_plainSign hl.isNamePart]
      change Copies _ (Token.opening :: _).reverse
      rw [List.reverse_cons]
      exact hname.add inserted_opening
  | opening =>
      change Copies _ (Token.opening :: _).reverse
      rw [List.reverse_cons]
      exact (copies_operandStart h false).keep .opening
  | closing =>
      refine copies_settle ?_
      rw [List.reverse_cons]
      exact h.keep .closing
  | negation he =>
      have hopen : Copies text s.openGroup.inOrder := by
        change Copies _ (Token.opening :: _).reverse
        rw [List.reverse_cons]
        exact h.add inserted_opening
      exact copies_negating hopen
  | negationOfNothing he => exact copies_negating h
  | plus he => exact h.plus (signExpected_inOrder he)
  | @operator c op hc hs =>
      rw [List.map_singleton, plainSign_of_ofChar? hc, inOrder_push]
      exact h.keep (.operator op)
  | @stray c hc =>
      rw [List.map_singleton, plainSign_of_none hc.operator, inOrder_push]
      exact h.keep (.stray c)

theorem copies_run (cs : List Char) : Copies (cs.map plainSign) (start.run cs).inOrder := by
  have hrun : ∃ read, cs = read ++ [] ∧ Copies (read.map plainSign) (start.run cs).inOrder := by
    refine turn_induction
      (P := fun s rest => ∃ read, cs = read ++ rest ∧ Copies (read.map plainSign) s.inOrder) ?_
      ⟨[], rfl, .start⟩
    rintro s s' taken after ht ⟨read, hread, h⟩
    refine ⟨read ++ taken, by rw [hread, List.append_assoc], ?_⟩
    rw [List.map_append]
    exact ht.copies h
  obtain ⟨read, hread, h⟩ := hrun
  obtain rfl : cs = read := hread.trans (List.append_nil read)
  exact h

end Scan

namespace Token

theorem Copies.of_scan (autoBalance : Bool) (cs : List Char) :
    Copies ((normalize cs).map Operator.plainSign) (scan autoBalance cs) := by
  have hrun := Scan.copies_run (normalize cs)
  have hfinish : Copies ((normalize cs).map Operator.plainSign)
      (Scan.start.run (normalize cs)).finish.inOrder := by
    change Copies _ (List.replicate _ closing ++ _).reverse
    rw [List.reverse_append, List.reverse_replicate]
    exact hrun.add_all fun t ht => List.eq_of_mem_replicate ht ▸ inserted_closing
  rw [scan, ofNormal]
  split
  · exact (hfinish.openings _).add_all fun t ht =>
      List.eq_of_mem_replicate ht ▸ inserted_closing
  · exact hfinish

/-- The tokens of an expression copy its text, without blanks, in small letters, and with the
plain signs for products and quotients. Written one after the other they are that text,
with nothing left out but plus signs and nothing put in but shorthand. -/
theorem copies_scan (autoBalance : Bool) (cs : List Char) :
    let text := (Text.lowerChars (Text.dropBlanks cs)).map Operator.plainSign
    Copies text (scan autoBalance cs) ∧
      ∃ kept, Inserted ['+'] kept text ∧
        Inserted shorthand kept ((scan autoBalance cs).flatMap Token.text) :=
  ⟨.of_scan autoBalance cs, (Copies.of_scan autoBalance cs).concatenated⟩

end Token
end RuleSheet
