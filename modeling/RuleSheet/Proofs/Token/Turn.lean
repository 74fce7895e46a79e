import RuleSheet.Proofs.Token.Lexeme
import RuleSheet.Token.Scan

/-!
# What one lexeme does to the state of the scanner

`Turn` lists every way in which a step can go: the text that it takes, what it knows of the
text after it, and the state that it leads to. A numeral and a name are known to end where
they end because of what follows, so they are told together with the text after them. An
invariant of the scanner is shown for each kind of turn, and the run of the scanner follows
by one induction.
-/
namespace RuleSheet

namespace Scan
open Lexeme

/-- A character that begins nothing and is a lexeme by itself, without a meaning. -/
structure IsStray (c : Char) : Prop where
  numeral : startsNumeral c = false
  name : isNameChar c = false
  opening : c ≠ '('
  closing : c ≠ ')'
  operator : Operator.ofChar? c = none

/-- A step from the state `s` leaves the text `after`. It takes the text in the last place but
one, and leads to the state in the last place. -/
inductive Turn (s : Scan) (after : List Char) : List Char → Scan → Prop
  | numeral (text : String) {sign digits : List Char} (ht : text.toList = sign ++ digits)
      (hs : sign = [] ∨ sign = ['-'] ∧ s.expectsOperand = true)
      (hl : NumeralBefore after digits) :
      Turn s after text.toList (((s.operandStart true).push (.number text)).operandEnd)
  | symbol {n : String} (hn : Builtin.isName n = false) (hl : NameBefore after n.toList) :
      Turn s after n.toList (((s.operandStart false).push (.name n)).operandEnd)
  | call {n : String} (hn : Builtin.isName n = true) (ha : after.head? = some '(')
      (hl : NameBefore after n.toList) :
      Turn s after n.toList ((s.operandStart false).push (.name n))
  | capture {n : String} (hn : Builtin.isName n = true) (hl : NameBefore after n.toList) :
      Turn s after n.toList (((s.operandStart false).push (.name n)).openGroup.owe)
  | opening : Turn s after ['('] (s.operandStart false).openGroup
  | closing : Turn s after [')'] s.close
  | negation (he : s.expectsOperand = true) :
      Turn s after ['-'] ((s.openGroup.push (.number "-1")).push (.operator .multiply)).owe
  | negationOfNothing (he : s.expectsOperand = true) :
      Turn s after ['-'] ((s.push (.number "-1")).push (.operator .multiply))
  | plus (he : s.expectsOperand = true) : Turn s after ['+'] s
  | operator {c : Char} {op : Operator} (hc : Operator.ofChar? c = some op)
      (hs : s.expectsOperand = true → op ≠ .subtract ∧ op ≠ .add) :
      Turn s after [c] (s.push (.operator op))
  | stray {c : Char} (hc : IsStray c) : Turn s after [c] (s.push (.stray c))

/-- The text is taken by a turn up to what is left of it. -/
def Turns (s : Scan) (text : List Char) (out : Scan × List Char) : Prop :=
  ∃ taken, text = taken ++ out.2 ∧ Turn s out.2 taken out.1

theorem turns_numeral {s : Scan} {sign : List Char}
    (hs : sign = [] ∨ sign = ['-'] ∧ s.expectsOperand = true) {c : Char}
    (hc : startsNumeral c = true) (rest : List Char) :
    s.Turns (sign ++ c :: rest) (s.numeral sign (c :: rest)) := by
  refine ⟨_, ?_, .numeral (String.ofList (sign ++ (Lexeme.numeral (c :: rest)).1))
    String.toList_ofList hs (numeralBefore hc rest)⟩
  rw [String.toList_ofList, List.append_assoc]
  exact congrArg (sign ++ ·) (numeral_append (c :: rest)).symm

theorem turns_name (s : Scan) {c : Char} (hc : isNameChar c = true) (rest : List Char) :
    s.Turns (c :: rest) (s.name (c :: rest)) := by
  have hl := nameBefore hc rest
  have happend := name_append (c :: rest)
  unfold name
  generalize Lexeme.name (c :: rest) = lexeme at hl happend
  obtain ⟨n, after⟩ := lexeme
  rw [← String.toList_ofList (l := n)] at hl
  dsimp only at happend ⊢
  rw [← happend]
  split
  · rename_i hn
    refine ⟨(String.ofList n).toList, by rw [String.toList_ofList], ?_⟩
    dsimp only
    split
    · rename_i ha
      exact .call hn ha hl
    · exact .capture hn hl
  · rename_i hn
    exact ⟨_, by rw [String.toList_ofList], .symbol (Bool.eq_false_iff.mpr hn) hl⟩

theorem turns_minus {s : Scan} (he : s.expectsOperand = true) (rest : List Char) :
    s.Turns ('-' :: rest) (s.minus rest) := by
  unfold minus
  dsimp only
  split
  · exact ⟨['-'], rfl, .negationOfNothing he⟩
  · split
    · rename_i hc
      exact turns_numeral (.inr ⟨rfl, he⟩) hc _
    · split
      · exact ⟨['-'], rfl, .negation he⟩
      · exact ⟨['-'], rfl, .negationOfNothing he⟩

theorem eq_minus_of_ofChar? {c : Char} (h : Operator.ofChar? c = some .subtract) : c = '-' := by
  unfold Operator.ofChar? at h
  split at h
  all_goals first | rfl | cases h

theorem eq_plus_of_ofChar? {c : Char} (h : Operator.ofChar? c = some .add) : c = '+' := by
  unfold Operator.ofChar? at h
  split at h
  all_goals first | rfl | cases h

theorem turns_operator (s : Scan) {c : Char} {op : Operator} (hc : Operator.ofChar? c = some op)
    (rest : List Char) : s.Turns (c :: rest) (s.operator op rest) := by
  unfold operator
  split
  · rename_i h
    rw [Bool.and_eq_true, beq_iff_eq] at h
    obtain rfl : c = '-' := eq_minus_of_ofChar? (h.2 ▸ hc)
    exact turns_minus h.1 rest
  · rename_i hsubtract
    split
    · rename_i h
      rw [Bool.and_eq_true, beq_iff_eq] at h
      obtain rfl : c = '+' := eq_plus_of_ofChar? (h.2 ▸ hc)
      exact ⟨['+'], rfl, .plus h.1⟩
    · rename_i hadd
      refine ⟨[c], rfl, .operator hc fun he => ⟨?_, ?_⟩⟩
      · intro heq
        subst heq
        simp [he] at hsubtract
      · intro heq
        subst heq
        simp [he] at hadd

theorem turns_step (s : Scan) (c : Char) (rest : List Char) :
    s.Turns (c :: rest) (s.step c rest) := by
  unfold step
  split
  · rename_i hc
    exact turns_numeral (.inl rfl) hc rest
  rename_i hnumeral
  split
  · rename_i hc
    exact turns_name s hc rest
  rename_i hname
  split
  · rename_i hc
    rw [beq_iff_eq] at hc
    exact ⟨['('], by rw [hc]; rfl, .opening⟩
  rename_i hopening
  split
  · rename_i hc
    rw [beq_iff_eq] at hc
    exact ⟨[')'], by rw [hc]; rfl, .closing⟩
  rename_i hclosing
  split
  · rename_i op hop
    exact turns_operator s hop rest
  · rename_i hop
    exact ⟨[c], rfl, .stray ⟨by simpa using hnumeral, by simpa using hname, by simpa using hopening,
      by simpa using hclosing, hop⟩⟩

@[simp] theorem run_nil (s : Scan) : s.run [] = s := by
  rw [run]

theorem run_cons (s : Scan) (c : Char) (rest : List Char) :
    s.run (c :: rest) = (s.step c rest).1.run (s.step c rest).2 := by
  rw [run]

theorem run_induction {P : Scan → List Char → Prop}
    (hstep : ∀ s c rest, P s (c :: rest) → P (s.step c rest).1 (s.step c rest).2)
    {s : Scan} {cs : List Char} (h : P s cs) : P (s.run cs) [] := by
  fun_induction run s cs with
  | case1 s => exact h
  | case2 s c rest _ ih => exact ih (hstep s c rest h)

/-- What every turn keeps holds at the end of the text. -/
theorem turn_induction {P : Scan → List Char → Prop}
    (hturn : ∀ {s s' taken after}, Turn s after taken s' → P s (taken ++ after) → P s' after)
    {s : Scan} {cs : List Char} (h : P s cs) : P (s.run cs) [] := by
  refine run_induction (fun s c rest hs => ?_) h
  obtain ⟨taken, htext, ht⟩ := turns_step s c rest
  exact hturn ht (htext ▸ hs)

@[simp] theorem step_opening (s : Scan) (rest : List Char) :
    s.step '(' rest = ((s.operandStart false).openGroup, rest) := by
  unfold step
  rw [if_neg (by decide), if_neg (by decide +kernel)]
  rfl

theorem step_name {c : Char} (hc : Lexeme.isNameChar c = true) (s : Scan) (rest : List Char) :
    s.step c rest = s.name (c :: rest) := by
  rw [step, if_neg (by simp [Lexeme.startsNumeral_of_isNameChar hc]), if_pos hc]

theorem step_stray {c : Char} (hc : IsStray c) (s : Scan) (rest : List Char) :
    s.step c rest = (s.push (.stray c), rest) := by
  rw [step, if_neg (by simp [hc.numeral]), if_neg (by simp [hc.name]),
    if_neg (by simp [hc.opening]), if_neg (by simp [hc.closing]), hc.operator]

@[simp] theorem step_closing (s : Scan) (rest : List Char) : s.step ')' rest = (s.close, rest) := by
  unfold step
  rw [if_neg (by decide), if_neg (by decide +kernel)]
  rfl

theorem step_ofChar? {sign : Char} {op : Operator} (h : Operator.ofChar? sign = some op)
    (s : Scan) (rest : List Char) : s.step sign rest = s.operator op rest := by
  have hnot : Lexeme.startsNumeral sign = false ∧ Lexeme.isNameChar sign = false ∧
      (sign == '(') = false ∧ (sign == ')') = false := by
    unfold Operator.ofChar? at h
    split at h
    all_goals first | decide +kernel | cases h
  obtain ⟨hnumeral, hname, hopening, hclosing⟩ := hnot
  unfold step
  rw [if_neg (by simp [hnumeral]), if_neg (by simp [hname]), if_neg (by simp [hopening]),
    if_neg (by simp [hclosing]), h]

theorem step_minus {s : Scan} (he : s.expectsOperand = true) (rest : List Char) :
    s.step '-' rest = s.minus rest := by
  rw [step_ofChar? rfl, operator, if_pos (by simp [he])]

theorem step_operator {sign : Char} {op : Operator} (h : Operator.ofChar? sign = some op)
    {s : Scan} (hs : s.expectsOperand = true → op ≠ .subtract ∧ op ≠ .add) (rest : List Char) :
    s.step sign rest = (s.push (.operator op), rest) := by
  rw [step_ofChar? h, operator]
  cases he : s.expectsOperand with
  | false => rfl
  | true =>
      obtain ⟨hsubtract, hadd⟩ := hs he
      rw [if_neg (by simp [hsubtract]), if_neg (by simp [hadd])]

theorem operandStart_of_expectsOperand {s : Scan} (h : s.expectsOperand = true)
    (numeral : Bool) : s.operandStart numeral = s := by
  unfold operandStart
  rw [if_neg]
  unfold expectsOperand at h
  intro hm
  split at h
  · rename_i hn
    rw [hn] at hm
    cases hm
  · rename_i op hn
    rw [hn] at hm
    cases hm
  · rename_i hn
    rw [hn] at hm
    cases hm
  · cases h

theorem settle_of_lt {tokens : List Token} {depth : Int} {closers : List Int}
    (h : ∀ d ∈ closers, d < depth) : settle tokens depth closers = ⟨tokens, depth, closers⟩ := by
  cases closers with
  | nil => rfl
  | cons d rest =>
      have hd := h d (by simp)
      rw [settle, if_neg (by omega)]

theorem dropWhile_of_le {depth : Int} {closers : List Int} (h : ∀ d ∈ closers, d ≤ depth) :
    closers.dropWhile (fun d => depth < d) = closers := by
  cases closers with
  | nil => rfl
  | cons d rest =>
      have hd := h d (by simp)
      exact List.dropWhile_cons_of_neg (by simpa using hd)

/-- A closing parenthesis closes no group that is owed its end further out. -/
theorem close_of_lt {s : Scan} (h : ∀ d ∈ s.closers, d < s.depth) :
    s.close = settle (.closing :: s.tokens) (s.depth - 1) s.closers := by
  change settle _ _ (s.closers.dropWhile fun d => s.depth - 1 < d) = _
  rw [dropWhile_of_le fun d hd => Int.le_sub_one_of_lt (h d hd)]

/-! A lexeme is taken as a whole where it ends. -/

theorem numeral_of_before {digits rest : List Char} (h : NumeralBefore rest digits) (s : Scan)
    (sign : List Char) :
    s.numeral sign (digits ++ rest) =
      (((s.operandStart true).push (.number (String.ofList (sign ++ digits)))).operandEnd,
        rest) := by
  rw [numeral, h.lexeme]

theorem run_numeral {digits rest : List Char} (h : NumeralBefore rest digits) (s : Scan) :
    s.run (digits ++ rest) =
      (((s.operandStart true).push (.number (String.ofList digits))).operandEnd).run rest := by
  have hnumeral := numeral_of_before h s []
  obtain ⟨c, more, rfl, hc⟩ := h.starts
  rw [List.cons_append] at hnumeral ⊢
  rw [run_cons, step, if_pos hc, hnumeral, List.nil_append]

theorem run_negative {digits rest : List Char} (h : NumeralBefore rest digits) {s : Scan}
    (he : s.expectsOperand = true) :
    s.run ('-' :: (digits ++ rest)) =
      ((s.push (.number (String.ofList ('-' :: digits)))).operandEnd).run rest := by
  have hnumeral := numeral_of_before h s ['-']
  obtain ⟨c, more, rfl, hc⟩ := h.starts
  rw [run_cons, step_minus he]
  rw [List.cons_append] at hnumeral ⊢
  rw [minus]
  dsimp only
  rw [if_pos hc, hnumeral, operandStart_of_expectsOperand he, List.singleton_append]

@[simp] theorem rest_name (s : Scan) (cs : List Char) : (s.name cs).2 = (Lexeme.name cs).2 := by
  rw [name]
  generalize Lexeme.name cs = lexeme
  dsimp only
  split
  · rfl
  · rfl

theorem run_name {n : String} {rest : List Char} (h : NameBefore rest n.toList) (s : Scan) :
    s.run (n.toList ++ rest) = (s.name (n.toList ++ rest)).1.run rest := by
  have hrest : (s.name (n.toList ++ rest)).2 = rest := by rw [rest_name, h.lexeme]
  obtain ⟨c, more, hn, hc⟩ := exists_cons_of_startsName h.starts
  rw [hn] at hrest ⊢
  rw [List.cons_append] at hrest ⊢
  rw [run_cons, step_name hc, hrest]

theorem run_symbol {n : String} {rest : List Char} (hn : Builtin.isName n = false)
    (h : NameBefore rest n.toList) (s : Scan) :
    s.run (n.toList ++ rest) = (((s.operandStart false).push (.name n)).operandEnd).run rest := by
  rw [run_name h, name, h.lexeme]
  dsimp only
  rw [String.ofList_toList, if_neg (by simp [hn])]

/-- The name of a function before a parenthesis opens no group of its own. -/
theorem run_call {n : String} {rest : List Char} (hn : Builtin.isName n = true)
    (ha : rest.head? = some '(') (h : NameBefore rest n.toList) (s : Scan) :
    s.run (n.toList ++ rest) = ((s.operandStart false).push (.name n)).run rest := by
  rw [run_name h, name, h.lexeme]
  dsimp only
  rw [String.ofList_toList, if_pos hn]
  dsimp only
  rw [if_pos ha]

/-- The name of a function before anything else opens a group for its operand. -/
theorem run_capture {n : String} {rest : List Char} (hn : Builtin.isName n = true)
    (ha : rest.head? ≠ some '(') (h : NameBefore rest n.toList) (s : Scan) :
    s.run (n.toList ++ rest) =
      (((s.operandStart false).push (.name n)).openGroup.owe).run rest := by
  rw [run_name h, name, h.lexeme]
  dsimp only
  rw [String.ofList_toList, if_pos hn]
  dsimp only
  rw [if_neg ha]

/-! Tokens are only ever added. -/

theorem suffix_push {s : Scan} {ts : List Token} (h : ts <:+ s.tokens) (t : Token) :
    ts <:+ (s.push t).tokens :=
  h.trans (List.suffix_cons t s.tokens)

theorem suffix_settle (tokens : List Token) (depth : Int) (closers : List Int) :
    tokens <:+ (settle tokens depth closers).tokens := by
  induction closers generalizing tokens depth with
  | nil => exact List.suffix_rfl
  | cons d rest ih =>
      rw [settle]
      split
      · exact (List.suffix_cons _ tokens).trans (ih _ _)
      · exact List.suffix_rfl

theorem suffix_operandStart (s : Scan) (numeral : Bool) :
    s.tokens <:+ (s.operandStart numeral).tokens := by
  unfold operandStart
  split
  · exact suffix_push List.suffix_rfl _
  · exact List.suffix_rfl

theorem Turn.suffix {s s' : Scan} {after taken : List Char} (h : Turn s after taken s') :
    s.tokens <:+ s'.tokens := by
  cases h with
  | numeral text =>
      exact (suffix_push (suffix_operandStart s true) _).trans (suffix_settle _ _ _)
  | symbol =>
      exact (suffix_push (suffix_operandStart s false) _).trans (suffix_settle _ _ _)
  | call => exact suffix_push (suffix_operandStart s false) _
  | capture =>
      exact (suffix_push (suffix_operandStart s false) _).trans (List.suffix_cons _ _)
  | opening => exact (suffix_operandStart s false).trans (List.suffix_cons _ _)
  | closing => exact (List.suffix_cons _ s.tokens).trans (suffix_settle _ _ _)
  | negation => exact List.suffix_append [_, _, _] s.tokens
  | negationOfNothing => exact List.suffix_append [_, _] s.tokens
  | plus => exact List.suffix_rfl
  | operator => exact List.suffix_cons _ s.tokens
  | stray => exact List.suffix_cons _ s.tokens

theorem suffix_run (s : Scan) (cs : List Char) : s.tokens <:+ (s.run cs).tokens :=
  turn_induction (P := fun s' _ => s.tokens <:+ s'.tokens) (fun ht h => h.trans ht.suffix)
    List.suffix_rfl

end Scan
end RuleSheet
