import RuleSheet.Proofs.Token.Lookahead
import RuleSheet.Proofs.Token.Neighbours

/-!
# The depths at which groups are owed their end

The scanner keeps the depths at which it has a group to close, the innermost first. Whatever
the text, and even where it closes more than it has opened, these depths decrease outwards
and none of them lies deeper than the scanner is. A new one is put on when the depth has just
grown to it. The end of an operand takes away the first ones, one after the other as the
depth goes down, and a written parenthesis takes away those that it has passed. So no group is
owed its end at the present depth when an operand has just ended.
-/
namespace RuleSheet

namespace Scan
open Token

/-- The groups that are owed their end lie in one another and around the present depth. -/
structure Stacked (s : Scan) : Prop where
  decreasing : s.closers.Pairwise (· > ·)
  le : ∀ d ∈ s.closers, d ≤ s.depth

theorem stacked_settle (tokens : List Token) {depth : Int} {closers : List Int}
    (hd : closers.Pairwise (· > ·)) (hle : ∀ d ∈ closers, d ≤ depth) :
    (settle tokens depth closers).Stacked := by
  induction closers generalizing tokens depth with
  | nil => exact ⟨.nil, by simp [settle]⟩
  | cons d rest ih =>
      obtain ⟨hfirst, hrest⟩ := List.pairwise_cons.mp hd
      rw [settle]
      split
      · rename_i heq
        subst heq
        exact ih (.closing :: tokens) hrest fun e he => Int.le_sub_one_of_lt (hfirst e he)
      · exact ⟨hd, hle⟩

theorem Stacked.push {s : Scan} (h : s.Stacked) (t : Token) : (s.push t).Stacked :=
  ⟨h.decreasing, h.le⟩

theorem Stacked.operandStart {s : Scan} (h : s.Stacked) (numeral : Bool) :
    (s.operandStart numeral).Stacked := by
  unfold Scan.operandStart
  split
  · exact h.push _
  · exact h

theorem Stacked.operandEnd {s : Scan} (h : s.Stacked) : s.operandEnd.Stacked :=
  stacked_settle s.tokens h.decreasing h.le

theorem Stacked.openGroup {s : Scan} (h : s.Stacked) : s.openGroup.Stacked where
  decreasing := h.decreasing
  le d hd := Int.le_add_one (h.le d hd)

theorem Stacked.owe_openGroup {s : Scan} (h : s.Stacked) : s.openGroup.owe.Stacked where
  decreasing :=
    List.pairwise_cons.mpr ⟨fun d hd => Int.lt_add_one_of_le (h.le d hd), h.decreasing⟩
  le := List.forall_mem_cons.mpr ⟨Int.le_refl _, h.openGroup.le⟩

/-- A written parenthesis passes the groups that were owed their end deeper than it leads. -/
theorem le_of_mem_dropWhile {depth : Int} {closers : List Int} (h : closers.Pairwise (· > ·)) :
    ∀ d ∈ closers.dropWhile (fun d => depth < d), d ≤ depth := by
  induction closers with
  | nil => simp
  | cons d rest ih =>
      obtain ⟨hfirst, hrest⟩ := List.pairwise_cons.mp h
      by_cases hd : depth < d
      · rw [List.dropWhile_cons_of_pos (by simpa using hd)]
        exact ih hrest
      · rw [List.dropWhile_cons_of_neg (by simpa using hd)]
        refine List.forall_mem_cons.mpr ⟨Int.not_lt.mp hd, fun e he => ?_⟩
        have hlt := hfirst e he
        omega

theorem Stacked.close {s : Scan} (h : s.Stacked) : s.close.Stacked :=
  stacked_settle _ (h.decreasing.sublist (List.dropWhile_sublist _))
    (le_of_mem_dropWhile h.decreasing)

theorem Turn.stacked {s s' : Scan} {after taken : List Char} (ht : Turn s after taken s')
    (h : s.Stacked) : s'.Stacked := by
  cases ht with
  | numeral text => exact ((h.operandStart true).push _).operandEnd
  | symbol => exact ((h.operandStart false).push _).operandEnd
  | call => exact (h.operandStart false).push _
  | capture => exact ((h.operandStart false).push _).owe_openGroup
  | opening => exact (h.operandStart false).openGroup
  | closing => exact h.close
  | negation => exact (h.owe_openGroup.push (.number "-1")).push (.operator .multiply)
  | negationOfNothing => exact (h.push _).push _
  | plus => exact h
  | operator => exact h.push _
  | stray => exact h.push _

@[simp] theorem depth_operandStart (s : Scan) (numeral : Bool) :
    (s.operandStart numeral).depth = s.depth := by
  unfold operandStart
  split
  · rfl
  · rfl

@[simp] theorem closers_operandStart (s : Scan) (numeral : Bool) :
    (s.operandStart numeral).closers = s.closers := by
  unfold operandStart
  split
  · rfl
  · rfl

theorem closers_settle (tokens : List Token) (depth : Int) (closers : List Int) :
    (settle tokens depth closers).closers <:+ closers := by
  induction closers generalizing tokens depth with
  | nil => exact List.suffix_rfl
  | cons d rest ih =>
      rw [settle]
      split
      · exact (ih (.closing :: tokens) (depth - 1)).trans (List.suffix_cons d rest)
      · exact List.suffix_rfl

/-- A turn puts on no depth but the next one. -/
theorem Turn.mem_closers {s s' : Scan} {after taken : List Char} (ht : Turn s after taken s')
    {d : Int} (hd : d ∈ s'.closers) : d ∈ s.closers ∨ d = s.depth + 1 := by
  have hstart {numeral : Bool} (hd : d ∈ (s.operandStart numeral).closers) : d ∈ s.closers := by
    rwa [closers_operandStart] at hd
  cases ht with
  | numeral text => exact .inl (hstart ((closers_settle _ _ _).subset hd))
  | symbol => exact .inl (hstart ((closers_settle _ _ _).subset hd))
  | call => exact .inl (hstart hd)
  | capture =>
      rcases List.mem_cons.mp hd with hd | hd
      · exact .inr (hd.trans (congrArg (· + 1) (depth_operandStart s false)))
      · exact .inl (hstart hd)
  | opening => exact .inl (hstart hd)
  | closing => exact .inl ((List.dropWhile_sublist _).subset ((closers_settle _ _ _).subset hd))
  | negation => exact (List.mem_cons.mp hd).symm
  | negationOfNothing => exact .inl hd
  | plus => exact .inl hd
  | operator => exact .inl hd
  | stray => exact .inl hd

/-- No group is owed its end at the present depth, if an operand has just ended. -/
def Ended (s : Scan) : Prop :=
  ∀ last ∈ s.tokens.head?, last.endsOperand = true → ∀ d ∈ s.closers, d < s.depth

theorem ended_settle (tokens : List Token) {depth : Int} {closers : List Int}
    (hd : closers.Pairwise (· > ·)) (hle : ∀ d ∈ closers, d ≤ depth) :
    (settle tokens depth closers).Ended := by
  induction closers generalizing tokens depth with
  | nil => simp [settle, Ended]
  | cons d rest ih =>
      obtain ⟨hfirst, hrest⟩ := List.pairwise_cons.mp hd
      rw [settle]
      split
      · rename_i heq
        subst heq
        exact ih (.closing :: tokens) hrest fun e he => Int.le_sub_one_of_lt (hfirst e he)
      · rename_i hne
        intro _ _ _
        have hdle := hle d (.head _)
        have hlt : d < depth := by omega
        exact List.forall_mem_cons.mpr ⟨hlt, fun e he => Int.lt_trans (hfirst e he) hlt⟩

theorem Stacked.ended_operandEnd {s : Scan} (h : s.Stacked) : s.operandEnd.Ended :=
  ended_settle s.tokens h.decreasing h.le

theorem Stacked.ended_close {s : Scan} (h : s.Stacked) : s.close.Ended :=
  ended_settle _ (h.decreasing.sublist (List.dropWhile_sublist _))
    (le_of_mem_dropWhile h.decreasing)

theorem ended_of_token {t : Token} (ht : t.endsOperand = false) (tokens : List Token)
    (depth : Int) (closers : List Int) : Ended ⟨t :: tokens, depth, closers⟩ := by
  intro last hlast hends
  obtain rfl : t = last := Option.some.inj hlast
  rw [ht] at hends
  cases hends

theorem Turn.ended {s s' : Scan} {after taken : List Char} (ht : Turn s after taken s')
    (hs : s.Stacked) (h : s.Ended) : s'.Ended := by
  cases ht with
  | numeral text => exact ((hs.operandStart true).push _).ended_operandEnd
  | symbol => exact ((hs.operandStart false).push _).ended_operandEnd
  | @call n hn => exact ended_of_token (by simp [endsOperand, hn]) _ _ _
  | capture => exact ended_of_token rfl _ _ _
  | opening => exact ended_of_token rfl _ _ _
  | closing => exact hs.ended_close
  | negation => exact ended_of_token (t := .operator .multiply) rfl _ _ _
  | negationOfNothing => exact ended_of_token (t := .operator .multiply) rfl _ _ _
  | plus => exact h
  | operator => exact ended_of_token rfl _ _ _
  | stray => exact ended_of_token rfl _ _ _

theorem Reads.stacked {s : Scan} {cs rest : List Char} (h : Reads start cs s rest) : s.Stacked :=
  h.induction (P := fun s _ => s.Stacked) (fun ht hs => ht.stacked hs)
    ⟨.nil, by simp [start]⟩

theorem Reads.ended {s : Scan} {cs rest : List Char} (h : Reads start cs s rest) : s.Ended := by
  have hstart : start.Stacked ∧ start.Ended := ⟨⟨.nil, by simp [start]⟩, by simp [start, Ended]⟩
  exact (h.induction (P := fun s _ => s.Stacked ∧ s.Ended)
    (fun ht hs => ⟨ht.stacked hs.1, ht.ended hs.1 hs.2⟩) hstart).2

end Scan
end RuleSheet
