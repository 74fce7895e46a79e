import RuleSheet.Proofs.Token.Depth
import RuleSheet.Proofs.Token.Groups
import RuleSheet.Proofs.Token.Owed

/-!
# What the depths of the scanner stand for

The scanner keeps a depth and the depths at which it owes a closing parenthesis. They are read
here against the groups that its tokens leave open. Its depth is the number of their opening
parentheses less the number of the closing ones. The depths that are owed are those of its own
groups that are open: each of them was reached with an opening parenthesis that the scanner put
in, and that nothing has closed since.

A step pushes the tokens of one lexeme, and the groups change with each of them as the state
does. So what holds at the start holds wherever scanning comes.
-/
namespace RuleSheet

namespace Scan
open Token

/-- Scanning `cs` up to where `rest` is left has pushed these tokens, the latest first, and has
come to the state. Each token is told with the first character of the step that pushed it. -/
inductive Pushes (cs : List Char) : List Pushed → Scan → List Char → Prop
  | start : Pushes cs [] .start cs
  | step {pushed : List Pushed} {s : Scan} {c : Char} {rest : List Char} {new : List Token}
      (h : Pushes cs pushed s (c :: rest)) (hnew : (s.step c rest).1.tokens = new ++ s.tokens) :
      Pushes cs (new.map (⟨·, c⟩) ++ pushed) (s.step c rest).1 (s.step c rest).2

theorem Reads.exists_pushes {cs rest : List Char} {s : Scan} (h : Reads start cs s rest) :
    ∃ pushed, Pushes cs pushed s rest := by
  refine h.step_induction (P := fun s rest => ∃ pushed, Pushes cs pushed s rest)
    (fun s c rest hs => ?_) ⟨[], .start⟩
  obtain ⟨pushed, hpushes⟩ := hs
  obtain ⟨taken, htext, ht⟩ := turns_step s c rest
  obtain ⟨new, hnew⟩ := ht.suffix
  exact ⟨_, hpushes.step hnew.symm⟩

/-- The state has these tokens, its depth is what they have open, and it owes a closing
parenthesis to the groups of the scanner that they leave open. -/
structure Follows (pushed : List Pushed) (s : Scan) : Prop where
  tokens : s.tokens = pushed.map Pushed.token
  counted : s.Counted
  closers : s.closers = owed (openGroups pushed)

namespace Follows
variable {pushed : List Pushed} {s : Scan} {c : Char}

theorem depth_eq (h : Follows pushed s) : s.depth = net pushed := by
  have hcounted := h.counted
  unfold Counted at hcounted
  rw [h.tokens] at hcounted
  unfold net
  omega

theorem layered (h : Follows pushed s) : Layered s.depth (openGroups pushed) := by
  rw [h.depth_eq]
  exact layered_openGroups pushed

theorem push (h : Follows pushed s) {t : Token} (ho : t ≠ .opening) (hc : t ≠ .closing) :
    Follows (⟨t, c⟩ :: pushed) (s.push t) where
  tokens := congrArg (t :: ·) h.tokens
  counted := counted_push h.counted ho hc
  closers := by
    rw [openGroups_of_ne ho hc]
    exact h.closers

theorem openGroup (h : Follows pushed s) :
    Follows (⟨.opening, '('⟩ :: pushed) s.openGroup where
  tokens := congrArg (Token.opening :: ·) h.tokens
  counted := counted_openGroup h.counted
  closers := h.closers

theorem owe_openGroup (h : Follows pushed s) (hc : c ≠ '(') :
    Follows (⟨.opening, c⟩ :: pushed) s.openGroup.owe where
  tokens := congrArg (Token.opening :: ·) h.tokens
  counted := counted_openGroup h.counted
  closers := by
    rw [openGroups, owed_cons_of_inserted (by simpa using hc), ← h.depth_eq, ← h.closers]
    rfl

/-- A closing parenthesis of the text, before the end of the operand that it completes. -/
theorem passed (h : Follows pushed s) :
    Follows (⟨.closing, c⟩ :: pushed)
      ⟨.closing :: s.tokens, s.depth - 1, s.closers.dropWhile fun d => s.depth - 1 < d⟩ where
  tokens := congrArg (Token.closing :: ·) h.tokens
  counted := counted_closing h.counted _
  closers := by
    rw [h.closers]
    exact h.layered.dropWhile_owed

theorem mem_closers_iff (h : Follows pushed s) {d : Int} :
    d ∈ s.closers ↔ ∃ later c before, pushed = later ++ ⟨.opening, c⟩ :: before ∧
      c ≠ '(' ∧ net before + 1 = d ∧ Keeps later := by
  rw [h.closers, mem_owed_iff]
  constructor
  · rintro ⟨g, hg, hinserted, rfl⟩
    obtain ⟨later, ⟨c, before, hpushed, rfl⟩, hkeeps⟩ := mem_openGroups_iff.mp hg
    exact ⟨later, c, before, hpushed, by simpa using hinserted, rfl, hkeeps⟩
  · rintro ⟨later, c, before, hpushed, hc, rfl, hkeeps⟩
    have hg := mem_openGroups_iff.mpr ⟨later, ⟨c, before, hpushed, rfl⟩, hkeeps⟩
    exact ⟨_, hg, by simpa using hc, rfl⟩

theorem settle_eq (h : Follows pushed s) (tokens : List Token) :
    settle tokens s.depth s.closers = endIn (openGroups pushed) tokens s.depth := by
  rw [h.closers]
  exact h.layered.settle_owed tokens

theorem close_eq (h : Follows pushed s) :
    s.close = endIn (openGroups pushed).tail (.closing :: s.tokens) (s.depth - 1) :=
  (h.passed (c := ')')).settle_eq (.closing :: s.tokens)

theorem operandEnd (h : Follows pushed s) (c : Char) :
    Follows ((List.replicate (ending (openGroups pushed)).length Token.closing).map (⟨·, c⟩) ++
      pushed) s.operandEnd := by
  have hend : s.operandEnd = endIn (openGroups pushed) s.tokens s.depth := h.settle_eq s.tokens
  refine ⟨?_, counted_settle h.counted, ?_⟩
  · rw [hend]
    simp [endIn, h.tokens]
  · rw [hend, openGroups_closings]
    rfl

end Follows

/-- The state follows the tokens `pushed` and some more, which have been pushed for a lexeme that
begins with `c`. -/
def Continues (c : Char) (pushed : List Pushed) (s : Scan) : Prop :=
  ∃ new : List Token, Follows (new.map (⟨·, c⟩) ++ pushed) s

theorem Follows.continues {pushed : List Pushed} {s : Scan} (h : Follows pushed s) (c : Char) :
    Continues c pushed s :=
  ⟨[], h⟩

namespace Continues
variable {pushed : List Pushed} {s : Scan} {c : Char}

theorem push (h : Continues c pushed s) {t : Token} (ho : t ≠ .opening) (hc : t ≠ .closing) :
    Continues c pushed (s.push t) := by
  obtain ⟨new, h⟩ := h
  exact ⟨t :: new, h.push ho hc⟩

theorem operandStart (h : Continues c pushed s) (numeral : Bool) :
    Continues c pushed (s.operandStart numeral) := by
  unfold Scan.operandStart
  split
  · exact h.push (by decide) (by decide)
  · exact h

theorem operandEnd (h : Continues c pushed s) : Continues c pushed s.operandEnd := by
  obtain ⟨new, h⟩ := h
  have hend := h.operandEnd c
  rw [← List.append_assoc, ← List.map_append] at hend
  exact ⟨_, hend⟩

theorem openGroup (h : Continues '(' pushed s) : Continues '(' pushed s.openGroup := by
  obtain ⟨new, h⟩ := h
  exact ⟨.opening :: new, h.openGroup⟩

theorem owe_openGroup (h : Continues c pushed s) (hc : c ≠ '(') :
    Continues c pushed s.openGroup.owe := by
  obtain ⟨new, h⟩ := h
  exact ⟨.opening :: new, h.owe_openGroup hc⟩

theorem close (h : Continues c pushed s) : Continues c pushed s.close := by
  obtain ⟨new, h⟩ := h
  have hpassed : Continues c pushed
      ⟨.closing :: s.tokens, s.depth - 1, s.closers.dropWhile fun d => s.depth - 1 < d⟩ :=
    ⟨.closing :: new, h.passed⟩
  exact hpassed.operandEnd

end Continues

theorem Turn.continues {s s' : Scan} {after taken : List Char} (ht : Turn s after taken s')
    {c : Char} {rest : List Char} (htext : c :: rest = taken ++ after) {pushed : List Pushed}
    (h : Follows pushed s) : Continues c pushed s' := by
  have hbefore := h.continues c
  cases ht with
  | numeral text =>
      exact ((hbefore.operandStart true).push (by simp) (by simp)).operandEnd
  | symbol => exact ((hbefore.operandStart false).push (by simp) (by simp)).operandEnd
  | call => exact (hbefore.operandStart false).push (by simp) (by simp)
  | capture hn hl =>
      obtain ⟨d, more, hname, hd⟩ := Lexeme.exists_cons_of_startsName hl.starts
      rw [hname] at htext
      obtain rfl : c = d := (List.cons.inj htext).1
      have hc : c ≠ '(' := by
        rintro rfl
        exact absurd hd (by decide +kernel)
      exact ((hbefore.operandStart false).push (by simp) (by simp)).owe_openGroup hc
  | opening =>
      obtain rfl : c = '(' := (List.cons.inj htext).1
      exact (hbefore.operandStart false).openGroup
  | closing => exact hbefore.close
  | negation =>
      obtain rfl : c = '-' := (List.cons.inj htext).1
      have howed := hbefore.owe_openGroup (by decide)
      exact (howed.push (t := .number "-1") (by simp) (by simp)).push
        (t := .operator .multiply) (by simp) (by simp)
  | negationOfNothing => exact (hbefore.push (by simp) (by simp)).push (by simp) (by simp)
  | plus => exact hbefore
  | operator => exact hbefore.push (by simp) (by simp)
  | stray => exact hbefore.push (by simp) (by simp)

theorem Pushes.follows {cs rest : List Char} {pushed : List Pushed} {s : Scan}
    (h : Pushes cs pushed s rest) : Follows pushed s := by
  induction h with
  | start => exact ⟨rfl, rfl, rfl⟩
  | @step pushed s c rest new h hnew ih =>
      obtain ⟨taken, htext, ht⟩ := turns_step s c rest
      obtain ⟨more, hfollows⟩ := ht.continues htext ih
      have hsame : new = more := by
        have htokens := hfollows.tokens
        rw [hnew, List.map_append, ← ih.tokens, List.map_map] at htokens
        have hmore := List.append_cancel_right htokens
        simpa [Function.comp_def] using hmore
      rw [hsame]
      exact hfollows

/-- What the depths of the state stand for, if these tokens have been pushed. -/
structure Disciplined (pushed : List Pushed) (s : Scan) : Prop where
  tokens : s.tokens = pushed.map Pushed.token
  depth : s.depth = s.tokens.count .opening - s.tokens.count .closing
  closers : s.closers = owed (openGroups pushed)
  decreasing : s.closers.Pairwise (· > ·)
  le : ∀ d ∈ s.closers, d ≤ s.depth
  /-- An owed depth is one to which an opening parenthesis of the scanner has led that nothing has
  closed since. -/
  named : ∀ d, d ∈ s.closers ↔ ∃ later c before, pushed = later ++ ⟨.opening, c⟩ :: before ∧
    c ≠ '(' ∧ net before + 1 = d ∧ Keeps later
  /-- No group of the scanner is left open when its operand has ended. -/
  ended : ∀ last ∈ s.tokens.head?, last.endsOperand = true → ending (openGroups pushed) = []
  /-- The end of the operand that comes next closes the groups whose operand it ends. -/
  operandEnd : ∀ numeral operand,
    ((s.operandStart numeral).push operand).operandEnd =
      endIn (openGroups pushed) ((s.operandStart numeral).push operand).tokens s.depth
  /-- A closing parenthesis of the text drops the depth of the group that it closes, if this is a
  group of the scanner. -/
  passed : s.closers = owed ((openGroups pushed).take 1) ++
    s.closers.dropWhile fun d => s.depth - 1 < d
  /-- It then closes the groups whose operand it has completed. -/
  close : s.close = endIn (openGroups pushed).tail (.closing :: s.tokens) (s.depth - 1)

/-- Wherever scanning comes in a text, its depth is what its tokens have open, and a closing
parenthesis is owed to the groups that it has opened itself and not yet closed, and to no
others. The end of an operand closes those of them whose operand has ended. -/
theorem Reads.disciplined {s : Scan} {cs rest : List Char} (h : Reads start cs s rest) :
    (∃ pushed, Pushes cs pushed s rest) ∧
      ∀ pushed, Pushes cs pushed s rest → Disciplined pushed s := by
  refine ⟨h.exists_pushes, fun pushed hpushes => ?_⟩
  have hfollows := hpushes.follows
  have hlayered := hfollows.layered
  exact {
    tokens := hfollows.tokens
    depth := by
      rw [hfollows.depth_eq, hfollows.tokens]
      rfl
    closers := hfollows.closers
    decreasing := h.stacked.decreasing
    le := h.stacked.le
    named := fun _ => hfollows.mem_closers_iff
    ended := fun last hlast hends =>
      hlayered.ending_eq_nil (hfollows.closers ▸ h.ended last hlast hends)
    operandEnd := by
      intro numeral operand
      unfold Scan.operandStart
      split
      · exact hfollows.settle_eq _
      · exact hfollows.settle_eq _
    passed := by
      rw [hfollows.closers, hlayered.dropWhile_owed, ← List.drop_one, ← owed_append,
        List.take_append_drop]
    close := hfollows.close_eq }

/-- Two groups of the scanner are open around one of the text, and the depth was below zero before
them. -/
theorem disciplined_below_zero :
    ∃ s, Reads start "1)abs-(2".toList s [] ∧ s.depth = 2 ∧ s.closers = [1, 0] ∧
      (∃ pushed, Pushes "1)abs-(2".toList pushed s []) ∧
      ∀ pushed, Pushes "1)abs-(2".toList pushed s [] → Disciplined pushed s := by
  have hreads := reads_run start "1)abs-(2".toList
  exact ⟨_, hreads, by decide +kernel, by decide +kernel, hreads.disciplined⟩

end Scan
end RuleSheet
