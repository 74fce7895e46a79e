import RuleSheet.Proofs.Text.Lowering
import RuleSheet.Proofs.Token.Depth
import RuleSheet.Proofs.Token.Owed

/-!
# Written parentheses

The scanner puts parentheses of its own among those of the text, and a closing parenthesis
of the text may close a group that the scanner has opened. It does so only in a group whose
operand has not come, since the scanner closes its groups as soon as their operand ends.
So where every closing parenthesis among the tokens ends an operand, the groups that the
text has open are those of the tokens, less those that the scanner still has to close. If
the tokens are nested then, the text is.
-/
namespace RuleSheet
open Text

namespace Token

/-- The tokens, the latest first, never close more than is open, and a closing parenthesis
among them follows the end of an operand. -/
structure Sound (tokens : List Token) : Prop where
  opened : ∀ q, q <:+ tokens → q.count closing ≤ q.count opening
  filled : ∀ q, closing :: q <:+ tokens → ∃ last ∈ q.head?, last.endsOperand = true

theorem Sound.of_suffix {tokens before : List Token} (h : Sound tokens)
    (hbefore : before <:+ tokens) : Sound before where
  opened q hq := h.opened q (hq.trans hbefore)
  filled q hq := h.filled q (hq.trans hbefore)

end Token

namespace Scan
open Token

/-- The groups that are owed their end lie in one another, and when an operand has just ended
none of them is owed it here. -/
structure Owing (s : Scan) : Prop where
  decreasing : s.closers.Pairwise (· > ·)
  positive : ∀ d ∈ s.closers, 0 < d
  le : ∀ d ∈ s.closers, d ≤ s.depth
  lt : ∀ last ∈ s.tokens.head?, last.endsOperand = true → ∀ d ∈ s.closers, d < s.depth

/-- How many groups the text has open. -/
def written (s : Scan) : Int :=
  s.depth - s.closers.length

/-! The end of an operand, and a group that the scanner opens, leave it as it is. -/

theorem written_settle (tokens : List Token) (depth : Int) (closers : List Int) :
    (settle tokens depth closers).written = depth - closers.length := by
  induction closers generalizing tokens depth with
  | nil => rfl
  | cons d rest ih =>
      rw [settle]
      split
      · rw [ih, List.length_cons]
        omega
      · rfl

@[simp] theorem written_operandEnd (s : Scan) : s.operandEnd.written = s.written :=
  written_settle s.tokens s.depth s.closers

@[simp] theorem written_operandStart (s : Scan) (numeral : Bool) :
    (s.operandStart numeral).written = s.written := by
  unfold operandStart
  split
  · rfl
  · rfl

@[simp] theorem written_openGroup (s : Scan) : s.openGroup.written = s.written + 1 := by
  unfold written openGroup
  dsimp only
  omega

@[simp] theorem written_owe_openGroup (s : Scan) : s.openGroup.owe.written = s.written := by
  unfold written owe openGroup
  dsimp only
  rw [List.length_cons]
  omega

theorem not_mem_of_isNamePart {cs : List Char} (h : ∀ c ∈ cs, Lexeme.isNamePart c = true) :
    '(' ∉ cs ∧ ')' ∉ cs := by
  constructor
  · intro hc
    exact absurd (h _ hc) (by decide +kernel)
  · intro hc
    exact absurd (h _ hc) (by decide +kernel)

/-- A turn takes a parenthesis of the text by itself. All other turns leave open what the text
has open. -/
theorem Turn.written_cases {s s' : Scan} {after taken : List Char} (ht : Turn s after taken s') :
    taken = ['('] ∧ s'.written = s.written + 1 ∨ taken = [')'] ∧ s' = s.close ∨
      ('(' ∉ taken ∧ ')' ∉ taken) ∧ s'.written = s.written := by
  cases ht with
  | @numeral word sign digits hword hsign hl =>
      obtain ⟨hopening, hclosing⟩ := not_mem_of_isNamePart hl.isNamePart
      refine .inr (.inr ⟨?_, (written_operandEnd _).trans (written_operandStart s true)⟩)
      rw [hword, List.mem_append, List.mem_append, not_or, not_or]
      rcases hsign with rfl | ⟨rfl, _⟩
      · exact ⟨⟨by decide, hopening⟩, by decide, hclosing⟩
      · exact ⟨⟨by decide, hopening⟩, by decide, hclosing⟩
  | symbol hn hl =>
      exact .inr (.inr ⟨not_mem_of_isNamePart hl.isNamePart,
        (written_operandEnd _).trans (written_operandStart s false)⟩)
  | call hn ha hl =>
      exact .inr (.inr ⟨not_mem_of_isNamePart hl.isNamePart, written_operandStart s false⟩)
  | capture hn hl =>
      exact .inr (.inr ⟨not_mem_of_isNamePart hl.isNamePart,
        (written_owe_openGroup _).trans (written_operandStart s false)⟩)
  | opening =>
      exact .inl ⟨rfl, by simp⟩
  | closing => exact .inr (.inl ⟨rfl, rfl⟩)
  | negation => exact .inr (.inr ⟨by decide, written_owe_openGroup s⟩)
  | negationOfNothing => exact .inr (.inr ⟨by decide, rfl⟩)
  | plus => exact .inr (.inr ⟨by decide, rfl⟩)
  | @operator c op hop _ =>
      refine .inr (.inr ⟨⟨fun hmem => ?_, fun hmem => ?_⟩, rfl⟩)
      · obtain rfl := List.mem_singleton.mp hmem
        cases hop
      · obtain rfl := List.mem_singleton.mp hmem
        cases hop
  | @stray c hstray =>
      exact .inr (.inr ⟨⟨by simpa using hstray.opening.symm,
        by simpa using hstray.closing.symm⟩, rfl⟩)

theorem length_le_of_decreasing {closers : List Int} {depth : Int} (hdepth : 0 ≤ depth)
    (hd : closers.Pairwise (· > ·)) (hpos : ∀ d ∈ closers, 0 < d)
    (hle : ∀ d ∈ closers, d ≤ depth) : (closers.length : Int) ≤ depth := by
  induction closers generalizing depth with
  | nil => exact hdepth
  | cons d rest ih =>
      obtain ⟨hfirst, hrest⟩ := List.pairwise_cons.mp hd
      have hd0 := hpos d (.head _)
      have hd1 := hle d (.head _)
      have hbound : (rest.length : Int) ≤ d - 1 :=
        ih (by omega) hrest (fun e he => hpos e (.tail _ he))
          fun e he => Int.le_sub_one_of_lt (hfirst e he)
      rw [List.length_cons]
      omega

theorem Owing.written_nonneg {s : Scan} (h : s.Owing) (hdepth : 0 ≤ s.depth) : 0 ≤ s.written :=
  Int.sub_nonneg_of_le (length_le_of_decreasing hdepth h.decreasing h.positive h.le)

theorem depth_nonneg {s : Scan} (hc : s.Counted) (hs : Sound s.tokens) : 0 ≤ s.depth := by
  have hle := hs.opened s.tokens List.suffix_rfl
  unfold Counted at hc
  omega

theorem Owing.written_close {s : Scan} (h : s.Owing)
    (hends : ∃ last ∈ s.tokens.head?, last.endsOperand = true) :
    s.close.written = s.written - 1 := by
  obtain ⟨last, hlast, hend⟩ := hends
  rw [close_of_lt (h.lt last hlast hend), written_settle]
  unfold written
  omega

/-- A turn keeps the groups that are owed their end, as long as no more is closed than is open. -/
theorem Turn.owing {s s' : Scan} {after taken : List Char} (ht : Turn s after taken s')
    (hdepth : 0 ≤ s.depth) (h : s.Owing) : s'.Owing := by
  have hbefore : s.Stacked := ⟨h.decreasing, h.le⟩
  have hstacked := ht.stacked hbefore
  refine ⟨hstacked.decreasing, fun d hd => ?_, hstacked.le, ht.ended hbefore h.lt⟩
  rcases ht.mem_closers hd with hd | rfl
  · exact h.positive d hd
  · exact Int.lt_add_one_of_le hdepth

/-- A turn goes on with what the text has open, and closes only that. -/
theorem Turn.closes {s s' : Scan} {after taken : List Char} (ht : Turn s after taken s')
    (hdepth : 0 ≤ s.depth) (hafter : 0 ≤ s'.depth) (hs : Sound s'.tokens) (h : s.Owing)
    (hclose : Closes '(' ')' s'.written.toNat after) :
    Closes '(' ')' s.written.toNat (taken ++ after) := by
  have hwritten := h.written_nonneg hdepth
  have hleft := (ht.owing hdepth h).written_nonneg hafter
  rcases ht.written_cases with ⟨rfl, hmore⟩ | ⟨rfl, rfl⟩ | ⟨htaken, hsame⟩
  · rw [hmore, Int.toNat_add hwritten (by decide)] at hclose
    exact (Closes.cons_iff (by decide)).mpr ⟨fun hsign => absurd hsign.1 (by decide), hclose⟩
  · have hends : ∃ last ∈ s.tokens.head?, last.endsOperand = true :=
      hs.filled s.tokens (suffix_settle (.closing :: s.tokens) _ _)
    have hless := h.written_close hends
    refine (Closes.cons_iff (by decide)).mpr ⟨fun hnone => ?_, ?_⟩
    · omega
    · have hnext : s.written.toNat - 1 = s.close.written.toNat := by omega
      rw [if_neg (by decide), if_pos rfl, hnext]
      exact hclose
  · rw [Closes.append_of_not_mem_iff (by decide) htaken.1 htaken.2, ← hsame]
    exact hclose

/-- While the tokens are sound, the groups are owed as they should be, and the text `cs` is
nested if the rest of it closes what it has open. -/
structure Pending (cs : List Char) (s : Scan) (rest : List Char) : Prop where
  counted : s.Counted
  owing : Sound s.tokens →
    s.Owing ∧ (Closes '(' ')' s.written.toNat rest → Nested '(' ')' cs)

theorem Turn.pending {cs : List Char} {s s' : Scan} {after taken : List Char}
    (ht : Turn s after taken s') (h : Pending cs s (taken ++ after)) : Pending cs s' after where
  counted := ht.counted h.counted
  owing hs := by
    have hbefore := hs.of_suffix ht.suffix
    have hdepth := depth_nonneg h.counted hbefore
    have hafter := depth_nonneg (ht.counted h.counted) hs
    obtain ⟨howing, hclose⟩ := h.owing hbefore
    exact ⟨ht.owing hdepth howing,
      fun hrest => hclose (ht.closes hdepth hafter hs howing hrest)⟩

theorem pending_run (cs : List Char) : Pending cs (start.run cs) [] := by
  have hstart : start.Owing := ⟨.nil, by simp [start], by simp [start], by simp [start]⟩
  exact turn_induction (fun ht h => ht.pending h) ⟨rfl, fun _ => ⟨hstart, id⟩⟩

/-- At its end the text has open what its tokens have, without those that balancing adds. -/
theorem written_run (cs : List Char) :
    (start.run cs).written =
      (ofNormal false cs).count .opening - (ofNormal false cs).count .closing := by
  have hcounted := counted_finish (counted_run cs)
  change (start.run cs).finish.depth =
    (start.run cs).finish.inOrder.count .opening - (start.run cs).finish.inOrder.count .closing
  unfold Counted at hcounted
  rw [inOrder, List.count_reverse, List.count_reverse]
  omega

end Scan

namespace Token

@[simp] theorem normalize_append (a b : List Char) :
    normalize (a ++ b) = normalize a ++ normalize b := by
  simp [normalize]

theorem normalize_cons_of_lt {c : Char} (hpos : ' '.toNat < c.toNat) (hlt : c.toNat < 'A'.toNat)
    (rest : List Char) : normalize (c :: rest) = c :: normalize rest := by
  have hkept : normalize [c] = [c] :=
    of_toNat_lt (p := fun c => ' '.toNat < c.toNat → normalize [c] = [c]) (by decide +kernel)
      hlt hpos
  rw [← List.singleton_append, normalize_append, hkept, List.singleton_append]

theorem normalize_replicate {c : Char} (hpos : ' '.toNat < c.toNat) (hlt : c.toNat < 'A'.toNat)
    (count : Nat) : normalize (List.replicate count c) = List.replicate count c := by
  induction count with
  | zero => rfl
  | succ count ih => rw [List.replicate_succ, normalize_cons_of_lt hpos hlt, ih]

/-- Normalizing makes no visible character that is before the small letters. -/
theorem mem_of_mem_normalize {c : Char} {cs : List Char} (hpos : 0 < c.toNat)
    (hc : c.toNat < 'a'.toNat) (h : c ∈ normalize cs) : c ∈ cs :=
  List.mem_of_mem_filter (mem_of_mem_lowerChars hpos hc h)

theorem count_normalize {c : Char} (hpos : ' '.toNat < c.toNat) (hlt : c.toNat < 'A'.toNat)
    (cs : List Char) : (normalize cs).count c = cs.count c := by
  induction cs with
  | nil => rfl
  | cons d rest ih =>
      by_cases hd : d = c
      · subst hd
        rw [normalize_cons_of_lt hpos hlt, List.count_cons_self, List.count_cons_self, ih]
      · have hnone : c ∉ normalize [d] := by
          intro hc
          have hmem := mem_of_mem_normalize (Nat.zero_lt_of_lt hpos)
            (Nat.lt_trans hlt (by decide)) hc
          exact hd (List.mem_singleton.mp hmem).symm
        rw [← List.singleton_append, normalize_append, List.count_append, List.count_append,
          List.count_eq_zero_of_not_mem hnone, ih, List.count_singleton,
          if_neg (by simpa using hd)]

end Token

theorem Closes.of_normalize {depth : Nat} {cs : List Char}
    (h : Closes '(' ')' depth (Token.normalize cs)) : Closes '(' ')' depth cs := by
  have hne : '(' ≠ ')' := by decide
  induction cs generalizing depth with
  | nil => exact h
  | cons c rest ih =>
      rw [← List.singleton_append, Token.normalize_append] at h
      by_cases hsign : c = '(' ∨ c = ')'
      · have hself : Token.normalize [c] = [c] := by
          rcases hsign with rfl | rfl
          · decide +kernel
          · decide +kernel
        rw [hself, List.singleton_append, cons_iff hne] at h
        exact (cons_iff hne).mpr ⟨h.1, ih h.2⟩
      · obtain ⟨hopening, hclosing⟩ := not_or.mp hsign
        have hnone : '(' ∉ [c] ∧ ')' ∉ [c] :=
          ⟨by simpa using Ne.symm hopening, by simpa using Ne.symm hclosing⟩
        rw [append_of_not_mem_iff hne
          (fun hc => hnone.1 (Token.mem_of_mem_normalize (by decide) (by decide) hc))
          fun hc => hnone.2 (Token.mem_of_mem_normalize (by decide) (by decide) hc)] at h
        rw [← List.singleton_append, append_of_not_mem_iff hne hnone.1 hnone.2]
        exact ih h

namespace Token

/-- A text is nested whose tokens are, if each of its closing parentheses ends an operand. -/
theorem nested_of_sound {cs : List Char} (hs : Sound (scan false cs).reverse)
    (hn : Nested .opening .closing (scan false cs)) : Nested '(' ')' cs := by
  have hreverse : (scan false cs).reverse = (Scan.start.run (normalize cs)).finish.tokens :=
    List.reverse_reverse _
  rw [hreverse] at hs
  have hwritten := Scan.written_run (normalize cs)
  have htotal : (ofNormal false (normalize cs)).count closing =
    0 + (ofNormal false (normalize cs)).count opening := hn.total
  obtain ⟨-, hclose⟩ :=
    (Scan.pending_run (normalize cs)).owing (hs.of_suffix (List.suffix_append _ _))
  exact .of_normalize (hclose (Closes.nil_iff.mpr (by omega)))

end Token
end RuleSheet
