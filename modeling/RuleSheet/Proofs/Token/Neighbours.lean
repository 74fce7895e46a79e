import Mathlib.Data.List.Chain
import RuleSheet.Proofs.Token.Turn

/-!
# What stands next to what

The scanner never leaves an operand directly after an operand, except a numeral after a
numeral, and it leaves an opening parenthesis directly after every function name. Both
are kept by every step, when it is added that the text goes on with a parenthesis while
a function name is the last token.

Nothing is said of operators: the scanner lets one stand after another, after an opening
parenthesis or before a closing one.
-/
namespace RuleSheet

namespace Token

def isNumber : Token → Bool
  | number _ => true
  | _ => false

def isFunction : Token → Bool
  | name n => Builtin.isName n
  | _ => false

/-- An operand begins with this token. -/
def startsOperand : Token → Bool
  | number _ | name _ | opening => true
  | _ => false

/-- An operand ends with this token. -/
def endsOperand : Token → Bool
  | number _ | closing => true
  | name n => !Builtin.isName n
  | _ => false

/-- The token `next` may stand directly after `last`. -/
structure Fits (last next : Token) : Prop where
  operands : last.endsOperand = true → next.startsOperand = true →
    last.isNumber = true ∧ next.isNumber = true
  argument : last.isFunction = true → next = opening

/-- What does not begin an operand may stand after everything but a function name. -/
theorem Fits.of_startsOperand {last next : Token} (hl : last.isFunction = false)
    (hn : next.startsOperand = false) : Fits last next where
  operands _ h := by
    rw [hn] at h
    cases h
  argument h := by
    rw [hl] at h
    cases h

/-- Everything may stand after what does not end an operand and is no function name. -/
theorem Fits.of_endsOperand {last next : Token} (hl : last.isFunction = false)
    (he : last.endsOperand = false) : Fits last next where
  operands h := by
    rw [he] at h
    cases h
  argument h := by
    rw [hl] at h
    cases h

end Token

namespace Scan
open Token

/-- The tokens so far fit, and a function name at their end has its parenthesis coming. -/
structure Neat (s : Scan) (rest : List Char) : Prop where
  fits : s.tokens.IsChain fun next last => Fits last next
  called : ∀ t ∈ s.tokens.head?, t.isFunction = true → rest.head? = some '('

/-- The last token is no function name. -/
def NoCall (s : Scan) : Prop :=
  ∀ t ∈ s.tokens.head?, t.isFunction = false

theorem noCall_cons {t : Token} (ht : t.isFunction = false) (tokens : List Token) :
    ∀ u ∈ (t :: tokens).head?, u.isFunction = false := by
  intro u hu
  obtain rfl : t = u := Option.some.inj hu
  exact ht

theorem Neat.of_noCall {s : Scan} {rest : List Char} (hs : s.NoCall)
    (hf : s.tokens.IsChain fun next last => Fits last next) : s.Neat rest where
  fits := hf
  called t ht h := by
    rw [hs t ht] at h
    cases h

theorem Neat.noCall {s : Scan} {c : Char} {rest : List Char} (h : s.Neat (c :: rest))
    (hc : c ≠ '(') : s.NoCall := by
  intro t ht
  rw [Bool.eq_false_iff]
  intro hf
  exact hc (Option.some.inj (h.called t ht hf))

theorem fits_push {s : Scan} (hs : s.NoCall)
    (hf : s.tokens.IsChain fun next last => Fits last next) {t : Token}
    (ht : t.startsOperand = false) :
    (s.push t).tokens.IsChain fun next last => Fits last next :=
  hf.cons fun last hl => .of_startsOperand (hs last hl) ht

/-- An operand may begin once the multiplication before it has been made explicit. -/
theorem fits_operandStart {s : Scan}
    (hf : s.tokens.IsChain fun next last => Fits last next) {t : Token}
    (ht : t.startsOperand = true) (hs : s.NoCall ∨ t = opening) :
    ((s.operandStart t.isNumber).push t).tokens.IsChain fun next last => Fits last next := by
  unfold operandStart
  split
  · rename_i hm
    have hfits : (s.push (.operator .multiply)).tokens.IsChain fun next last => Fits last next := by
      refine hf.cons fun last hl => .of_startsOperand ?_ rfl
      rw [hl] at hm
      cases last with
      | name n => simpa [multiplies, isFunction] using hm
      | _ => rfl
    refine hfits.cons fun last hl => ?_
    obtain rfl : Token.operator .multiply = last := Option.some.inj hl
    exact .of_endsOperand rfl rfl
  · rename_i hm
    refine hf.cons fun last hl => ⟨?_, ?_⟩
    · intro hends _
      rw [hl] at hm
      cases last with
      | number text => simpa [multiplies, isNumber] using hm
      | name n => exact absurd hends (by simpa [multiplies, endsOperand] using hm)
      | closing => simp [multiplies] at hm
      | operator op => cases hends
      | opening => cases hends
      | stray c => cases hends
    · intro hfunction
      rcases hs with hs | rfl
      · rw [hs last hl] at hfunction
        cases hfunction
      · rfl

theorem noCall_settle {tokens : List Token} (depth : Int) (closers : List Int)
    (h : ∀ t ∈ tokens.head?, t.isFunction = false) : (settle tokens depth closers).NoCall := by
  induction closers generalizing tokens depth with
  | nil => exact h
  | cons d rest ih =>
      rw [settle]
      split
      · exact ih _ (noCall_cons rfl tokens)
      · exact h

theorem fits_settle {tokens : List Token} (depth : Int) (closers : List Int)
    (h : ∀ t ∈ tokens.head?, t.isFunction = false)
    (hf : tokens.IsChain fun next last => Fits last next) :
    (settle tokens depth closers).tokens.IsChain fun next last => Fits last next := by
  induction closers generalizing tokens depth with
  | nil => exact hf
  | cons d rest ih =>
      rw [settle]
      split
      · exact ih _ (noCall_cons rfl tokens)
          (hf.cons fun last hl => .of_startsOperand (h last hl) rfl)
      · exact hf

theorem fits_of_expectsOperand {s : Scan} (he : s.expectsOperand = true) (next : Token) :
    ∀ last ∈ s.tokens.head?, Fits last next := by
  intro last hl
  rw [expectsOperand, hl] at he
  cases last with
  | operator op => exact .of_endsOperand rfl rfl
  | opening => exact .of_endsOperand rfl rfl
  | number text => cases he
  | name n => cases he
  | closing => cases he
  | stray c => cases he

theorem fits_negating {s : Scan} (he : s.expectsOperand = true)
    (hf : s.tokens.IsChain fun next last => Fits last next) :
    ((s.push (.number "-1")).push (.operator .multiply)).tokens.IsChain
      fun next last => Fits last next := by
  refine (hf.cons (fits_of_expectsOperand he _)).cons fun last hl => ?_
  obtain rfl : Token.number "-1" = last := Option.some.inj hl
  exact .of_startsOperand rfl rfl

theorem Turn.neat {s s' : Scan} {after taken : List Char} (h : Turn s after taken s')
    (hs : s.NoCall) (hf : s.tokens.IsChain fun next last => Fits last next) : s'.Neat after := by
  cases h with
  | numeral text =>
      have hfits := fits_operandStart hf (t := .number text) rfl (.inl hs)
      exact .of_noCall (noCall_settle _ _ (noCall_cons rfl _))
        (fits_settle _ _ (noCall_cons rfl _) hfits)
  | @symbol n hn =>
      have hfits := fits_operandStart hf (t := .name n) rfl (.inl hs)
      have hname : isFunction (.name n) = false := hn
      exact .of_noCall (noCall_settle _ _ (noCall_cons hname _))
        (fits_settle _ _ (noCall_cons hname _) hfits)
  | @call n hn ha =>
      exact ⟨fits_operandStart hf (t := .name n) rfl (.inl hs), fun _ _ _ => ha⟩
  | @capture n hn =>
      have hfits := fits_operandStart hf (t := .name n) rfl (.inl hs)
      refine .of_noCall (noCall_cons rfl _) (hfits.cons fun last hl => ?_)
      obtain rfl : Token.name n = last := Option.some.inj hl
      exact ⟨fun he => by simp [endsOperand, hn] at he, fun _ => rfl⟩
  | opening =>
      exact .of_noCall (noCall_cons rfl _) (fits_operandStart hf (t := .opening) rfl (.inl hs))
  | closing =>
      have hfits := fits_push hs hf (t := .closing) rfl
      exact .of_noCall (noCall_settle _ _ (noCall_cons rfl _))
        (fits_settle _ _ (noCall_cons rfl _) hfits)
  | negation he =>
      have hopen : s.openGroup.tokens.IsChain fun next last => Fits last next :=
        hf.cons (fits_of_expectsOperand he _)
      exact .of_noCall (noCall_cons rfl _) (fits_negating rfl hopen)
  | negationOfNothing he => exact .of_noCall (noCall_cons rfl _) (fits_negating he hf)
  | plus he => exact .of_noCall hs hf
  | operator => exact .of_noCall (noCall_cons rfl _) (fits_push hs hf rfl)
  | stray c => exact .of_noCall (noCall_cons rfl _) (fits_push hs hf rfl)

theorem neat_step {s : Scan} {c : Char} {rest : List Char} (h : s.Neat (c :: rest)) :
    (s.step c rest).1.Neat (s.step c rest).2 := by
  by_cases hc : c = '('
  · subst hc
    rw [step_opening]
    exact .of_noCall (noCall_cons rfl _) (fits_operandStart h.fits (t := .opening) rfl (.inr rfl))
  · obtain ⟨_, _, hturn⟩ := turns_step s c rest
    exact hturn.neat (h.noCall hc) h.fits

theorem neat_run (cs : List Char) : (start.run cs).Neat [] :=
  run_induction (fun _ _ _ h => neat_step h) ⟨.nil, by simp [start]⟩

theorem reverse_balanced (s : Scan) :
    s.balanced.reverse = List.replicate s.depth.toNat .closing ++ s.tokens ++
      List.replicate (-s.depth).toNat .opening := by
  simp [balanced, inOrder]

end Scan

namespace Token

theorem fits_replicate_closing {tokens : List Token} (count : Nat)
    (h : ∀ t ∈ tokens.head?, t.isFunction = false)
    (hf : tokens.IsChain fun next last => Fits last next) :
    (∀ t ∈ (List.replicate count closing ++ tokens).head?, t.isFunction = false) ∧
    (List.replicate count closing ++ tokens).IsChain fun next last => Fits last next := by
  induction count with
  | zero => exact ⟨h, hf⟩
  | succ count ih =>
      rw [List.replicate_succ, List.cons_append]
      exact ⟨Scan.noCall_cons rfl _,
        ih.2.cons fun last hl => .of_startsOperand (ih.1 last hl) rfl⟩

theorem fits_replicate_opening {tokens : List Token} (count : Nat)
    (h : ∀ t ∈ tokens.head?, t.isFunction = false)
    (hf : tokens.IsChain fun next last => Fits last next) :
    (∀ t ∈ (tokens ++ List.replicate count opening).head?, t.isFunction = false) ∧
    (tokens ++ List.replicate count opening).IsChain fun next last => Fits last next := by
  have hopening (next : Token) : ∀ last ∈ (List.replicate count opening).head?, Fits last next := by
    intro last hl
    rw [List.eq_of_mem_replicate (List.mem_of_mem_head? hl)]
    exact .of_endsOperand rfl rfl
  constructor
  · cases tokens with
    | nil =>
        intro t ht
        rw [List.eq_of_mem_replicate (List.mem_of_mem_head? ht)]
        rfl
    | cons t rest => exact h
  · exact hf.append (List.isChain_replicate_of_rel count (.of_endsOperand rfl rfl))
      fun next _ => hopening next

/-- The tokens of an expression, the latest first, fit, and the last one calls nothing. -/
theorem neat_scan (autoBalance : Bool) (cs : List Char) :
    Scan.Neat ⟨(scan autoBalance cs).reverse, 0, []⟩ [] := by
  have hneat := Scan.neat_run (normalize cs)
  have hcall : (Scan.start.run (normalize cs)).NoCall := by
    intro t ht
    rw [Bool.eq_false_iff]
    intro hf
    cases hneat.called t ht hf
  rw [scan, ofNormal]
  generalize Scan.start.run (normalize cs) = s at hneat hcall
  obtain ⟨hlast, hfinish⟩ := fits_replicate_closing s.closers.length hcall hneat.fits
  split
  · obtain ⟨hend, hclosed⟩ := fits_replicate_closing s.finish.depth.toNat hlast hfinish
    obtain ⟨hnone, hall⟩ := fits_replicate_opening (-s.finish.depth).toNat hend hclosed
    rw [Scan.reverse_balanced]
    exact .of_noCall hnone hall
  · rw [Scan.inOrder, List.reverse_reverse]
    exact .of_noCall hlast hfinish

theorem isChain_scan (autoBalance : Bool) (cs : List Char) :
    (scan autoBalance cs).IsChain Fits :=
  List.isChain_reverse.mp (neat_scan autoBalance cs).fits

end Token
end RuleSheet
