import RuleSheet.Proofs.Text.Lowering
import RuleSheet.Proofs.Token.Depth
import RuleSheet.Proofs.Token.Lossless
import RuleSheet.Proofs.Token.Neighbours
import RuleSheet.Proofs.Token.Separator

/-!
# Tokens read back

What the tokens of an expression are written with is scanned to the same tokens. For this
each token has to end where it ends in what is written after it, and a sign has to be taken
for what it was. The first scan keeps both for the tokens it has, before the text that it
has not read: what it puts in are separators, and they end every lexeme. The second scan
then takes one token after the other, and adds nothing.
-/
namespace RuleSheet
open Text

namespace Token

/-- An operand is expected after these tokens, the latest first. -/
def expected (before : List Token) : Bool :=
  Scan.expectsOperand ⟨before, 0, []⟩

/-- The token stands after `before`, the latest first, as the one lexeme at the front of what
it and `rest` are written with. -/
def ReadsAfter (before : List Token) (t : Token) (rest : List Char) : Prop :=
  match t with
  | number word => ∃ sign digits, word.toList = sign ++ digits ∧
      (sign = [] ∨ sign = ['-'] ∧ expected before = true) ∧ Lexeme.NumeralBefore rest digits
  | name n => Builtin.isName n = false → Lexeme.NameBefore rest n.toList
  | operator op => expected before = true → op ≠ .subtract ∧ op ≠ .add
  | stray c => Scan.IsStray c
  | opening | closing => True

/-- Each of the tokens, the latest first, reads in its place, when the text goes on with
`rest`. -/
def Legible : List Token → List Char → Prop
  | [], _ => True
  | t :: before, rest => ReadsAfter before t rest ∧ Legible before (t.text ++ rest)

/-- What comes after a separator does not matter to the tokens before it. -/
theorem Legible.separator {sep : Char} (hsep : Lexeme.isNamePart sep = false)
    {tokens : List Token} {w r : List Char} (h : Legible tokens (w ++ r)) (rest : List Char) :
    Legible tokens (w ++ sep :: rest) := by
  induction tokens generalizing w with
  | nil => trivial
  | cons t before ih =>
      obtain ⟨ht, hbefore⟩ := h
      rw [← List.append_assoc] at hbefore
      refine ⟨?_, List.append_assoc _ _ _ ▸ ih hbefore⟩
      cases t with
      | number word =>
          obtain ⟨sign, digits, hword, hsign, hl⟩ := ht
          exact ⟨sign, digits, hword, hsign, hl.separator hsep rest⟩
      | name n =>
          intro hn
          exact (ht hn).separator hsep (by rwa [String.ofList_toList]) rest
      | operator op => exact ht
      | stray c => exact ht
      | opening => trivial
      | closing => trivial

theorem Legible.before_separator {sep : Char} (hsep : Lexeme.isNamePart sep = false)
    {tokens : List Token} {r : List Char} (h : Legible tokens r) (rest : List Char) :
    Legible tokens (sep :: rest) :=
  Legible.separator hsep (w := []) h rest

@[simp] theorem isNamePart_symbol (op : Operator) : Lexeme.isNamePart op.symbol = false :=
  Lexeme.isNamePart_of_ofChar? (Operator.ofChar?_symbol op)

theorem Legible.operator {tokens : List Token} {r rest : List Char} (h : Legible tokens r)
    {op : Operator} (hop : expected tokens = true → op ≠ .subtract ∧ op ≠ .add) :
    Legible (.operator op :: tokens) rest :=
  ⟨hop, h.before_separator (isNamePart_symbol op) rest⟩

theorem Legible.opening {tokens : List Token} {r rest : List Char} (h : Legible tokens r) :
    Legible (.opening :: tokens) rest :=
  ⟨trivial, h.before_separator (by decide +kernel) rest⟩

theorem Legible.closing {tokens : List Token} {r rest : List Char} (h : Legible tokens r) :
    Legible (.closing :: tokens) rest :=
  ⟨trivial, h.before_separator (by decide +kernel) rest⟩

theorem Legible.of_expected {tokens : List Token} {r : List Char} (h : Legible tokens r)
    (he : expected tokens = true) (rest : List Char) : Legible tokens rest := by
  cases tokens with
  | nil => trivial
  | cons t before =>
      cases t with
      | operator op => exact Legible.operator h.2 h.1
      | opening => exact Legible.opening h.2
      | _ => cases he

end Token

namespace Scan
open Token

theorem legible_operandStart {s : Scan} {rest : List Char} (h : Legible s.tokens rest)
    (numeral : Bool) : Legible (s.operandStart numeral).tokens rest := by
  unfold operandStart
  split
  · exact h.operator fun _ => ⟨by decide, by decide⟩
  · exact h

theorem legible_settle {tokens : List Token} {rest : List Char} (h : Legible tokens rest)
    (depth : Int) (closers : List Int) : Legible (settle tokens depth closers).tokens rest := by
  induction closers generalizing tokens depth with
  | nil => exact h
  | cons d more ih =>
      rw [settle]
      split
      · exact ih h.closing (depth - 1)
      · exact h

theorem legible_negating {s : Scan} {r rest : List Char} (he : s.expectsOperand = true)
    (h : Legible s.tokens r) :
    Legible ((s.push (.number "-1")).push (.operator .multiply)).tokens rest := by
  have hone : Lexeme.NumeralBefore ('*' :: rest) ['1'] := by
    refine ⟨⟨'1', [], rfl, by decide⟩,
      Numeral.lexeme_whole (List.forall_mem_singleton.mpr rfl) fun c hc => ?_⟩
    obtain rfl : '*' = c := Option.some.inj hc
    rfl
  have hminus : Legible (s.push (.number "-1")).tokens ('*' :: rest) :=
    ⟨⟨['-'], ['1'], rfl, .inr ⟨rfl, he⟩, hone⟩, h.of_expected he _⟩
  exact hminus.operator fun _ => ⟨by decide, by decide⟩

theorem Turn.legible {s s' : Scan} {after taken : List Char} (ht : Turn s after taken s')
    (h : Legible s.tokens (taken ++ after)) : Legible s'.tokens after := by
  cases ht with
  | @numeral word sign digits hword hsign hl =>
      have hplace : ReadsAfter (s.operandStart true).tokens (.number word) after := by
        refine ⟨sign, digits, hword, hsign.imp_right fun ⟨hminus, he⟩ => ⟨hminus, ?_⟩, hl⟩
        rw [operandStart_of_expectsOperand he]
        exact he
      have hnumber : Legible ((s.operandStart true).push (.number word)).tokens after :=
        ⟨hplace, legible_operandStart h true⟩
      exact legible_settle hnumber _ _
  | @symbol n hn hl =>
      have hname : Legible ((s.operandStart false).push (.name n)).tokens after :=
        ⟨fun _ => hl, legible_operandStart h false⟩
      exact legible_settle hname _ _
  | @call n hn ha hl => exact ⟨fun _ => hl, legible_operandStart h false⟩
  | @capture n hn hl =>
      have hname : Legible ((s.operandStart false).push (.name n)).tokens after :=
        ⟨fun _ => hl, legible_operandStart h false⟩
      exact hname.opening
  | opening => exact (legible_operandStart h false).opening
  | closing => exact legible_settle h.closing _ _
  | negation he =>
      have hopen : Legible s.openGroup.tokens [] := h.opening
      exact legible_negating rfl hopen
  | negationOfNothing he => exact legible_negating he h
  | plus he => exact h.of_expected he after
  | @operator c op hc hs => exact h.operator hs
  | @stray c hc => exact ⟨hc, h⟩

theorem legible_run (cs : List Char) : Legible (start.run cs).tokens [] :=
  turn_induction (P := fun s rest => Legible s.tokens rest) (fun ht h => ht.legible h) trivial

/-! The second scan. -/

/-- Nothing is multiplied where an operand fits. -/
theorem operandStart_of_fits {s : Scan} {t : Token} (ht : t.startsOperand = true)
    (hf : ∀ last ∈ s.tokens.head?, Fits last t) : s.operandStart t.isNumber = s := by
  unfold operandStart
  rw [if_neg]
  intro hm
  cases hlast : s.tokens.head? with
  | none =>
      rw [hlast] at hm
      cases hm
  | some last =>
      rw [hlast] at hm
      have hends := (hf last hlast).operands
      cases last with
      | number word =>
          rw [(hends rfl ht).2] at hm
          cases hm
      | name n => cases (hends hm ht).1
      | closing => cases (hends rfl ht).1
      | operator op => cases hm
      | opening => cases hm
      | stray c => cases hm

/-- A token is scanned as itself after the tokens that it reads after. -/
theorem exists_run_text {before : List Token} {t : Token} {rest : List Char} (depth : Int)
    (ht : ReadsAfter before t rest) (hf : ∀ last ∈ before.head?, Fits last t)
    (hcall : t.isFunction = true → rest.head? = some '(') :
    ∃ depth', run ⟨before, depth, []⟩ (t.text ++ rest) = run ⟨t :: before, depth', []⟩ rest := by
  have hstart := operandStart_of_fits (s := ⟨before, depth, []⟩) (t := t)
  cases t with
  | number word =>
      obtain ⟨sign, digits, hword, hsign, hl⟩ := ht
      have hback : word = String.ofList (sign ++ digits) := by rw [← hword, String.ofList_toList]
      refine ⟨depth, ?_⟩
      rw [text, hword, hback]
      rcases hsign with rfl | ⟨rfl, he⟩
      · have hnone : operandStart ⟨before, depth, []⟩ true = ⟨before, depth, []⟩ := hstart rfl hf
        rw [List.nil_append, run_numeral hl, hnone]
        rfl
      · have he : expectsOperand ⟨before, depth, []⟩ = true := he
        rw [List.append_assoc, List.singleton_append, List.singleton_append, run_negative hl he]
        rfl
  | name n =>
      have hnone : operandStart ⟨before, depth, []⟩ false = ⟨before, depth, []⟩ := hstart rfl hf
      refine ⟨depth, ?_⟩
      cases hn : Builtin.isName n with
      | false =>
          rw [text, run_symbol hn (ht hn), hnone]
          rfl
      | true =>
          have ha := hcall hn
          have hends : Lexeme.EndsName rest := by
            obtain ⟨tail, rfl⟩ := List.head?_eq_some_iff.mp ha
            exact Lexeme.endsName_cons (by decide +kernel) tail
          rw [text, run_call hn ha (Lexeme.nameBefore_function hn hends), hnone]
          rfl
  | operator op =>
      refine ⟨depth, ?_⟩
      rw [text, List.singleton_append, run_cons,
        step_operator (s := ⟨before, depth, []⟩) (Operator.ofChar?_symbol op) ht]
      rfl
  | opening =>
      have hnone : operandStart ⟨before, depth, []⟩ false = ⟨before, depth, []⟩ := hstart rfl hf
      refine ⟨depth + 1, ?_⟩
      rw [text, List.singleton_append, run_cons, step_opening, hnone]
      rfl
  | closing =>
      refine ⟨depth - 1, ?_⟩
      rw [text, List.singleton_append, run_cons, step_closing]
      rfl
  | stray c =>
      refine ⟨depth, ?_⟩
      rw [text, List.singleton_append, run_cons, step_stray ht]
      rfl

/-- Legible tokens that fit are scanned as they are, up to the text that they are legible
before. -/
theorem exists_run_legible {tokens : List Token} {rest : List Char} (hl : Legible tokens rest)
    (hn : Neat ⟨tokens, 0, []⟩ rest) :
    ∃ depth, start.run (tokens.reverse.flatMap text ++ rest) = run ⟨tokens, depth, []⟩ rest := by
  induction tokens generalizing rest with
  | nil => exact ⟨0, rfl⟩
  | cons t before ih =>
      obtain ⟨ht, hbefore⟩ := hl
      have hneat : Neat ⟨before, 0, []⟩ (t.text ++ rest) := by
        refine ⟨hn.fits.tail, fun last hlast hfunction => ?_⟩
        have hopening := (hn.fits.rel_head? hlast).argument hfunction
        rw [hopening]
        rfl
      obtain ⟨depth, hrun⟩ := ih hbefore hneat
      obtain ⟨depth', htext⟩ := exists_run_text depth ht (fun last hlast => hn.fits.rel_head? hlast)
        (hn.called t rfl)
      refine ⟨depth', ?_⟩
      rw [List.reverse_cons, List.flatMap_append, List.flatMap_singleton, List.append_assoc, hrun,
        htext]

end Scan

namespace Token

@[simp] theorem expected_openings (before : List Token) (count : Nat) :
    expected (before ++ List.replicate count opening) = expected before := by
  cases before with
  | nil =>
      cases count with
      | zero => rfl
      | succ count => rfl
  | cons t more => rfl

theorem Legible.openings {tokens : List Token} {rest : List Char} (h : Legible tokens rest)
    (count : Nat) : Legible (tokens ++ List.replicate count .opening) rest := by
  induction tokens generalizing rest with
  | nil =>
      rw [List.nil_append]
      induction count generalizing rest with
      | zero => trivial
      | succ count ih => exact ⟨trivial, ih trivial⟩
  | cons t before ih =>
      obtain ⟨ht, hbefore⟩ := h
      refine ⟨?_, ih hbefore⟩
      cases t with
      | number word =>
          obtain ⟨sign, digits, hword, hsign, hl⟩ := ht
          rw [← expected_openings before count] at hsign
          exact ⟨sign, digits, hword, hsign, hl⟩
      | operator op => exact fun he => ht ((expected_openings before count).symm.trans he)
      | _ => exact ht

theorem Legible.closings {tokens : List Token} {rest : List Char} (h : Legible tokens rest)
    (count : Nat) : Legible (List.replicate count .closing ++ tokens) rest := by
  induction count generalizing rest with
  | zero => exact h
  | succ count ih => exact Legible.closing (ih h)

theorem legible_scan (autoBalance : Bool) (cs : List Char) :
    Legible (scan autoBalance cs).reverse [] := by
  have hrun := Scan.legible_run (normalize cs)
  rw [scan, ofNormal]
  generalize Scan.start.run (normalize cs) = s at hrun
  have hfinish : Legible s.finish.tokens [] := hrun.closings s.closers.length
  split
  · rw [Scan.reverse_balanced]
    exact (hfinish.closings _).openings _
  · rw [Scan.inOrder, List.reverse_reverse]
    exact hfinish

theorem ofNormal_text (autoBalance : Bool) (cs : List Char) :
    ofNormal autoBalance ((scan autoBalance cs).flatMap text) = scan autoBalance cs := by
  obtain ⟨depth, hrun⟩ :=
    Scan.exists_run_legible (legible_scan autoBalance cs) (neat_scan autoBalance cs)
  rw [List.reverse_reverse, List.append_nil, Scan.run_nil] at hrun
  have hcounted := Scan.counted_run ((scan autoBalance cs).flatMap text)
  rw [hrun, Scan.Counted] at hcounted
  dsimp only at hcounted
  rw [List.count_reverse, List.count_reverse] at hcounted
  rw [ofNormal, hrun]
  cases autoBalance with
  | false => exact List.reverse_reverse _
  | true =>
      obtain rfl : depth = 0 := by
        have hcount := count_scan_true cs
        omega
      simp [Scan.finish, Scan.balanced, Scan.inOrder]

theorem isBlank_and_isSettled_of_mem_normalize {cs : List Char} :
    ∀ c ∈ normalize cs, isBlank c = false ∧ IsSettled c := by
  intro c hc
  obtain ⟨d, hd, hcd⟩ := List.mem_flatMap.mp hc
  refine ⟨?_, isSettled_of_mem_lowerChar hcd⟩
  rw [Bool.eq_false_iff]
  intro hb
  rw [dropBlanks, List.mem_filter, isBlank_of_mem_lowerChar hcd hb] at hd
  cases hd.2

theorem isBlank_and_isSettled_of_mem_text {autoBalance : Bool} {cs : List Char} :
    ∀ c ∈ (scan autoBalance cs).flatMap text, isBlank c = false ∧ IsSettled c := by
  have hshorthand : ∀ c ∈ shorthand, isBlank c = false ∧ IsSettled c := by
    simp only [shorthand, List.forall_mem_cons, List.not_mem_nil, false_implies, implies_true]
    decide +kernel
  intro c hc
  rcases (Copies.of_scan autoBalance cs).mem_or c hc with hc | hc
  · obtain ⟨d, hd, rfl⟩ := List.mem_map.mp hc
    rw [Operator.plainSign]
    split
    · exact hshorthand '*' (by decide)
    split
    · exact ⟨by decide +kernel, by decide +kernel⟩
    · exact isBlank_and_isSettled_of_mem_normalize d hd
  · exact hshorthand c hc

/-- Blanks among the text of the tokens do not matter. -/
theorem scan_of_dropBlanks {autoBalance : Bool} {cs shown : List Char}
    (h : dropBlanks shown = (scan autoBalance cs).flatMap text) :
    scan autoBalance shown = scan autoBalance cs := by
  have hsettled : ∀ c ∈ (scan autoBalance cs).flatMap text, IsSettled c :=
    fun c hc => (isBlank_and_isSettled_of_mem_text c hc).2
  rw [scan, normalize, h, lowerChars_eq_self hsettled]
  exact ofNormal_text autoBalance cs

theorem dropBlanks_intercalate {sep : List Char} (hsep : dropBlanks sep = [])
    (words : List (List Char)) :
    dropBlanks (List.intercalate sep words) = dropBlanks words.flatten := by
  induction words with
  | nil => rfl
  | cons word rest ih =>
      cases rest with
      | nil => rfl
      | cons next more =>
          rw [List.intercalate_cons_cons, List.flatten_cons, dropBlanks_append, dropBlanks_append,
            hsep, List.append_nil, ih, dropBlanks_append]

/-- The tokens of an expression, written one after the other or with a blank between them,
are an expression with the same tokens. -/
theorem scan_text (autoBalance : Bool) (cs : List Char) :
    scan autoBalance ((scan autoBalance cs).flatMap text) = scan autoBalance cs ∧
      scan autoBalance (List.intercalate [' '] ((scan autoBalance cs).map text)) =
        scan autoBalance cs := by
  have hself : dropBlanks ((scan autoBalance cs).flatMap text) =
      (scan autoBalance cs).flatMap text :=
    dropBlanks_eq_self fun c hc => (isBlank_and_isSettled_of_mem_text c hc).1
  refine ⟨scan_of_dropBlanks hself, scan_of_dropBlanks ?_⟩
  rw [dropBlanks_intercalate (by decide +kernel), ← List.flatMap_def]
  exact hself

end Token
end RuleSheet
