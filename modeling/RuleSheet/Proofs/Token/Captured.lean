import RuleSheet.Proofs.Phrase
import RuleSheet.Proofs.Token.Owed
import RuleSheet.Proofs.Token.Shifted
import RuleSheet.Proofs.Unbalanced

/-!
# Operands without parentheses

A function takes the operand that follows its name, up to a sign or a parenthesis after it.
The group that the scanner opens for it is closed when the operand ends, and at once with it
those of the minus signs and functions inside the operand. So the operand may be put in
parentheses, in the middle of any text: the scan comes out of them with the same tokens.

An operand is scanned to tokens of its own. What stands in parentheses inside it is an
expression by itself. Its scan comes nowhere as far out as the groups around it, since no
closing parenthesis of a phrase closes more than the phrase has opened, and it leaves no
group behind, since every operand in it has come.
-/
namespace RuleSheet

namespace Phrase
open Token

/-- Functions are called, and other names are not. -/
def Named : Phrase → Prop
  | number _ => True
  | symbol n => Builtin.isName n = false
  | call f e => Builtin.isName f = true ∧ e.Named
  | group e => e.Named
  | binary _ l r => l.Named ∧ r.Named

theorem Named.filled {p : Phrase} (h : p.Named) : Filled p.tokens := by
  induction p with
  | number text => exact .singleton (by simp) rfl
  | symbol n =>
      have hn : Builtin.isName n = false := h
      exact .singleton (by simp) (by simp [endsOperand, hn])
  | call f e ih => exact (ih h.2).enclosed.cons (by simp)
  | group e ih => exact (ih h).enclosed
  | binary op l r ihl ihr =>
      have hr := (ihr h.2).cons (t := .operator op) (by simp)
      exact (ihl h.1).append hr.last hr.closings

theorem nested_tokens (p : Phrase) : Nested opening closing p.tokens := by
  have single {t : Token} (ho : opening ≠ t) (hc : closing ≠ t) :
      Nested opening closing [t] :=
    .of_not_mem (by simpa using ho) (by simpa using hc)
  induction p with
  | number text => exact single (by simp) (by simp)
  | symbol n => exact single (by simp) (by simp)
  | call f e ih => exact (single (by simp) (by simp)).append (ih.enclosed (by decide))
  | group e ih => exact ih.enclosed (by decide)
  | binary op l r ihl ihr =>
      exact ihl.append ((single (t := .operator op) (by simp) (by simp)).append ihr)

end Phrase

namespace Scan
open Lexeme Token

/-- The text is an expression by itself, without balancing. -/
def WellFormed (cs : List Char) : Prop :=
  ∃ p : Phrase, p.Named ∧ ofNormal false cs = p.tokens

/-- If the groups that are still owed their end all close an operand, there are none of them:
the first would have been closed when the operand ended. -/
theorem Owing.closers_eq_nil {s : Scan} (h : s.Owing) (hs : Sound s.finish.tokens)
    (hw : s.written = 0) : s.closers = [] := by
  cases hc : s.closers with
  | nil => rfl
  | cons d rest =>
      have hclosing : closing :: s.tokens <:+ s.finish.tokens := by
        unfold finish
        rw [hc, List.length_cons, List.replicate_succ', List.append_assoc]
        exact List.suffix_append _ _
      obtain ⟨last, hlast, hends⟩ := hs.filled s.tokens hclosing
      have hlt := h.lt last hlast hends
      have hd := hlt d (by simp [hc])
      have hpos := h.positive d (by simp [hc])
      have hlength : (s.closers.length : Int) ≤ s.depth - 1 :=
        length_le_of_decreasing (by omega) h.decreasing h.positive
          fun e he => Int.le_sub_one_of_lt (hlt e he)
      unfold written at hw
      omega

theorem run_eq_of_nested {cs : List Char} (hf : Filled (ofNormal false cs))
    (hn : Nested opening closing (ofNormal false cs)) :
    start.run cs = ⟨(ofNormal false cs).reverse, 0, []⟩ := by
  have hreverse : (ofNormal false cs).reverse = (start.run cs).finish.tokens :=
    List.reverse_reverse _
  have hsound := hf.sound hn
  rw [hreverse] at hsound ⊢
  obtain ⟨howing, -⟩ := (pending_run cs).owing (hsound.of_suffix (List.suffix_append _ _))
  have hwritten : (start.run cs).written = 0 := by
    have htotal := hn.total
    rw [written_run]
    omega
  have hclosers := howing.closers_eq_nil hsound hwritten
  generalize start.run cs = s at hclosers hwritten ⊢
  obtain ⟨tokens, depth, closers⟩ := s
  obtain rfl : closers = [] := hclosers
  obtain rfl : depth = 0 := by simpa [written] using hwritten
  rfl

/-- Put in parentheses, an expression is scanned as it is by itself, since its own depth never
falls below zero. -/
theorem WellFormed.encloses {cs : List Char} (h : WellFormed cs) :
    Encloses cs (ofNormal false cs) := by
  obtain ⟨p, hnamed, hp⟩ := h
  have hfilled : Filled (ofNormal false cs) := hp ▸ hnamed.filled
  have hnested : Nested opening closing (ofNormal false cs) := hp ▸ p.nested_tokens
  have hsound := hfilled.sound hnested
  have hrun := run_eq_of_nested hfilled hnested
  intro s rest hs
  have hreads := (reads_run start cs).append (.nil_closing rest)
  rw [hrun, List.nil_append] at hreads
  have hinside : ∀ t after, Reads start (cs ++ ')' :: rest) t after →
      Reads t after ⟨(ofNormal false cs).reverse, 0, []⟩ (')' :: rest) →
      s.openGroup.Inside t := by
    intro t after hfrom hto d hd
    have hcounted : t.Counted :=
      hfrom.induction (P := fun s _ => s.Counted) (fun ht hc => ht.counted hc) rfl
    have hdepth := depth_nonneg hcounted (hsound.of_suffix hto.suffix_tokens)
    have hle := hs d hd
    change d < t.depth + (s.depth + 1)
    omega
  have honto := (hreads.onto (b := s.openGroup) rfl hinside).run
  rw [start_onto] at honto
  have hlt : ∀ d ∈ s.closers, d < s.depth + 1 := fun d hd => Int.lt_add_one_of_le (hs d hd)
  rw [honto, run_cons, step_closing, close_of_lt (by simpa [onto, openGroup] using hlt)]
  simp [onto, openGroup]

/-- An operand of a function, in a text that goes on with `after`. It is a numeral, or a sign
and what may stand after a sign, which is told by `signed`: a name, a call, a group, or a
function with its own operand. -/
inductive Operand (after : List Char) : (signed : Bool) → List Char → Prop
  | literal {signed : Bool} {digits : List Char} (h : Numeral digits) :
      Operand after signed digits
  | plus {signed : Bool} {o : List Char} (h : Operand after true o) :
      Operand after signed ('+' :: o)
  | minus {signed : Bool} {o : List Char} (h : Operand after true o) :
      Operand after signed ('-' :: o)
  | name {n : String} (hn : Builtin.isName n = false) (hl : NameBefore after n.toList) :
      Operand after true n.toList
  | call {g : String} {e : List Char} (hg : Builtin.isName g = true) (he : WellFormed e) :
      Operand after true (g.toList ++ '(' :: (e ++ [')']))
  | group {e : List Char} (he : WellFormed e) : Operand after true ('(' :: (e ++ [')']))
  | capture {g : String} {o : List Char} (hg : Builtin.isName g = true)
      (hl : NameBefore (o ++ after) g.toList) (h : Operand after false o) :
      Operand after true (g.toList ++ o)

/-- How an operand begins after a sign. -/
inductive Operand.Begins : List Char → Prop
  | numeral {digits : List Char} (h : Numeral digits) : Begins digits
  | sign {c : Char} (hc : c = '-' ∨ c = '+') (rest : List Char) : Begins (c :: rest)
  | operand {c : Char} (hc : c = '(' ∨ isNameChar c = true) (rest : List Char) :
      Begins (c :: rest)

theorem Operand.begins {after o : List Char} {signed : Bool} (h : Operand after signed o) :
    Begins o := by
  have function {g : String} (hg : Builtin.isName g = true) (rest : List Char) :
      Begins (g.toList ++ rest) := by
    obtain ⟨c, tail, htext, hc⟩ := exists_isNameChar hg
    rw [htext]
    exact .operand (.inr hc) _
  cases h with
  | literal h => exact .numeral h
  | plus => exact .sign (.inr rfl) _
  | minus => exact .sign (.inl rfl) _
  | name hn hl =>
      obtain ⟨c, rest, htext, hc⟩ := exists_cons_of_startsName hl.starts
      rw [htext]
      exact .operand (.inr hc) rest
  | call hg => exact function hg _
  | group => exact .operand (.inl rfl) _
  | capture hg => exact function hg _

theorem Operand.exists_cons {after o : List Char} (h : Operand after false o) :
    ∃ c tail, o = c :: tail ∧ c ≠ '(' := by
  cases h with
  | literal h =>
      obtain ⟨c, tail, rfl, hc⟩ := h.exists_cons
      refine ⟨c, tail, rfl, ?_⟩
      rintro rfl
      cases hc
  | plus => exact ⟨'+', _, rfl, by decide⟩
  | minus => exact ⟨'-', _, rfl, by decide⟩

theorem Operand.exists_scans {after o : List Char} {signed : Bool}
    (h : Operand after signed o) (ha : EndsName after) (level : Nat) :
    ∃ tokens, Scans level o tokens := by
  have hend {rest : List Char} (hrest : EndsName rest) : SameEnd after rest :=
    .of_endsName ha hrest
  induction h generalizing level with
  | @literal _ digits h =>
      rw [← String.toList_ofList (l := digits)] at h ⊢
      exact ⟨_, scans_literal h level⟩
  | plus _ ih =>
      obtain ⟨tokens, hscan⟩ := ih level
      exact ⟨tokens, scans_plus hscan⟩
  | @minus _ o h ih =>
      cases h.begins with
      | numeral hdigits =>
          rw [← String.toList_ofList (l := o)] at hdigits ⊢
          exact ⟨_, scans_negative hdigits level⟩
      | sign hc rest =>
          obtain ⟨tokens, hscan⟩ := ih level
          exact ⟨_, scans_minus hscan ⟨_, rest, rfl, hc⟩⟩
      | operand hc rest =>
          obtain ⟨tokens, hscan⟩ := ih Formula.operandLevel
          exact ⟨_, scans_negate hscan ⟨_, rest, rfl, hc⟩ level⟩
  | name hn hl => exact ⟨_, scans_symbol hn (fun rest hrest => (hend hrest).nameBefore hl) level⟩
  | call hg he => exact ⟨_, scans_call hg he.encloses level⟩
  | group he => exact ⟨_, scans_group he.encloses level⟩
  | @capture g o hg hl h ih =>
      obtain ⟨tokens, hscan⟩ := ih Formula.operandLevel
      exact ⟨_, scans_capture hg hscan h.exists_cons
        (fun rest hrest => ((hend hrest).append_left o).nameBefore hl) level⟩

/-- With parentheses around the operand the scan comes to the same state after it. -/
theorem run_captured {s : Scan} (hs : s.Stacked) {f : String} (hf : Builtin.isName f = true)
    {o rest : List Char} (hl : NameBefore (o ++ rest) f.toList) (ho : Operand rest false o)
    (hrest : EndsName rest) :
    s.run (f.toList ++ (o ++ rest)) = s.run (f.toList ++ '(' :: (o ++ ')' :: rest)) := by
  obtain ⟨tokens, hscan⟩ := ho.exists_scans hrest Formula.operandLevel
  have hhead : (o ++ rest).head? ≠ some '(' := by
    obtain ⟨c, tail, rfl, hc⟩ := ho.exists_cons
    simpa using hc
  have hle := ((hs.operandStart false).push (.name f)).le
  rw [run_capture hf hhead hl, run_function hf, hscan.encloses _ _ hle]
  exact hscan.run_owed rfl hle hrest

end Scan

namespace Token
open Lexeme

/-- Where the name of a function is scanned, and an operand follows it, the operand may be put
in parentheses. The text before the name is any text, and so is the one after the operand, if
it begins with no part of a name. -/
theorem scan_captured {p f o r : List Char} {s : Scan} {n : String}
    (hp : Scan.Reads .start (normalize (p ++ f ++ o ++ r)) s (normalize (f ++ o ++ r)))
    (hf : normalize f = n.toList) (hn : Builtin.isName n = true)
    (hl : NameBefore (normalize (o ++ r)) n.toList)
    (ho : Scan.Operand (normalize r) false (normalize o)) (hr : EndsName (normalize r))
    (autoBalance : Bool) :
    scan autoBalance (p ++ f ++ o ++ r) =
      scan autoBalance (p ++ f ++ '(' :: (o ++ ')' :: r)) := by
  obtain ⟨c, tail, hname, hc⟩ := Scan.exists_isNameChar hn
  have hparens : normalize ('(' :: (o ++ ')' :: r)) =
      '(' :: (normalize o ++ ')' :: normalize r) := by
    rw [normalize_cons_of_lt (by decide) (by decide), normalize_append,
      normalize_cons_of_lt (by decide) (by decide)]
  simp only [normalize_append, List.append_assoc, hf] at hp hl
  have hsame : SameAhead (n.toList ++ (normalize o ++ normalize r))
      (n.toList ++ '(' :: (normalize o ++ ')' :: normalize r)) := by
    rw [hname]
    exact .of_isNameChar hc _ _
  have hrun : Scan.start.run (normalize (p ++ f ++ o ++ r)) =
      Scan.start.run (normalize (p ++ f ++ '(' :: (o ++ ')' :: r))) := by
    rw [normalize_append (p ++ f) ('(' :: _), hparens]
    simp only [normalize_append, List.append_assoc, hf]
    rw [hp.run, (hp.ahead hsame).run]
    exact Scan.run_captured hp.stacked hn hl ho hr
  rw [scan, scan, ofNormal, ofNormal, hrun]

/-- Four groups of the scanner end with the closing parenthesis of the operand. -/
theorem scan_captured_nested :
    Scan.Reads .start
        (normalize ("2".toList ++ "Abs".toList ++ "--log10-(x)".toList ++ "*3".toList))
        ⟨[.number "2"], 0, []⟩
        (normalize ("Abs".toList ++ "--log10-(x)".toList ++ "*3".toList)) ∧
      normalize "Abs".toList = "abs".toList ∧ Builtin.isName "abs" = true ∧
      NameBefore (normalize ("--log10-(x)".toList ++ "*3".toList)) "abs".toList ∧
      Scan.Operand (normalize "*3".toList) false (normalize "--log10-(x)".toList) ∧
      EndsName (normalize "*3".toList) ∧
      scan true ("2".toList ++ "Abs".toList ++ "--log10-(x)".toList ++ "*3".toList) =
        scan true ("2".toList ++ "Abs".toList ++
          '(' :: ("--log10-(x)".toList ++ ')' :: "*3".toList)) := by
  have hp : Scan.Reads .start
      (normalize ("2".toList ++ "Abs".toList ++ "--log10-(x)".toList ++ "*3".toList))
      ⟨[.number "2"], 0, []⟩
      (normalize ("Abs".toList ++ "--log10-(x)".toList ++ "*3".toList)) := by
    have hstep : Scan.start.step '2' "abs--log10-(x)*3".toList =
        (⟨[.number "2"], 0, []⟩, "abs--log10-(x)*3".toList) := by
      decide +kernel
    rw [show normalize ("2".toList ++ "Abs".toList ++ "--log10-(x)".toList ++ "*3".toList) =
        '2' :: "abs--log10-(x)*3".toList by decide +kernel,
      show normalize ("Abs".toList ++ "--log10-(x)".toList ++ "*3".toList) =
        "abs--log10-(x)*3".toList by decide +kernel]
    refine .step ?_
    rw [hstep]
    exact .refl _ _
  have hl : NameBefore (normalize ("--log10-(x)".toList ++ "*3".toList)) "abs".toList :=
    ⟨by decide +kernel, by decide +kernel⟩
  have hr : normalize "*3".toList = ['*', '3'] := by decide +kernel
  have ho : Scan.Operand (normalize "*3".toList) false (normalize "--log10-(x)".toList) := by
    have htext : normalize "--log10-(x)".toList =
        '-' :: '-' :: ("log10".toList ++ '-' :: '(' :: (['x'] ++ [')'])) := by
      decide +kernel
    have hname : (Phrase.symbol "x").Named := show Builtin.isName "x" = false by decide +kernel
    have hx : Scan.WellFormed ['x'] := ⟨.symbol "x", hname, by decide +kernel⟩
    rw [htext, hr]
    exact .minus (.minus (.capture (by decide +kernel) ⟨by decide +kernel, by decide +kernel⟩
      (.minus (.group hx))))
  have hends : EndsName (normalize "*3".toList) := by
    rw [hr]
    exact endsName_cons (by decide +kernel) _
  have hf : normalize "Abs".toList = "abs".toList := by decide +kernel
  have hn : Builtin.isName "abs" = true := by decide +kernel
  exact ⟨hp, hf, hn, hl, ho, hends, scan_captured hp hf hn hl ho hends true⟩

end Token
end RuleSheet
