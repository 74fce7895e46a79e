import RuleSheet.Proofs.Nested
import RuleSheet.Proofs.Token.Turn

/-!
# What balancing adds

The scanner keeps the number of opening parentheses less the number of closing ones,
those it wrote itself included, and balancing looks at that number alone, once, at the
end of the text. It adds as many parentheses as the whole list lacks: closing ones at the
end or opening ones at the beginning, never both.

So the totals always agree afterwards. The list is nested exactly when it is mendable: no
prefix lacks more opening parentheses than the whole. Where a prefix does, what was
closed too often is made up for by parentheses that open later, and nothing is added.
-/
namespace RuleSheet

namespace Scan

/-- The depth is what is open. -/
def Counted (s : Scan) : Prop :=
  (s.tokens.count .opening : Int) = s.depth + s.tokens.count .closing

theorem counted_push {s : Scan} (h : s.Counted) {t : Token} (ho : t ≠ .opening)
    (hc : t ≠ .closing) : (s.push t).Counted := by
  unfold Counted push
  dsimp only
  rw [List.count_cons_of_ne ho, List.count_cons_of_ne hc]
  exact h

theorem counted_openGroup {s : Scan} (h : s.Counted) : s.openGroup.Counted := by
  unfold Counted openGroup at *
  dsimp only
  rw [List.count_cons_self, List.count_cons_of_ne (by decide)]
  omega

theorem counted_operandStart {s : Scan} (h : s.Counted) (numeral : Bool) :
    (s.operandStart numeral).Counted := by
  unfold operandStart
  split
  · exact counted_push h (by decide) (by decide)
  · exact h

theorem counted_closing {tokens : List Token} {depth : Int} {closers : List Int}
    (h : Counted ⟨tokens, depth, closers⟩) (owed : List Int) :
    Counted ⟨.closing :: tokens, depth - 1, owed⟩ := by
  unfold Counted at *
  dsimp only at *
  rw [List.count_cons_self, List.count_cons_of_ne (by decide)]
  omega

theorem counted_settle {tokens : List Token} {depth : Int} {closers : List Int}
    (h : Counted ⟨tokens, depth, closers⟩) : (settle tokens depth closers).Counted := by
  induction closers generalizing tokens depth with
  | nil => exact h
  | cons d rest ih =>
      rw [settle]
      split
      · exact ih (counted_closing h rest)
      · exact h

theorem Turn.counted {s s' : Scan} {after taken : List Char} (h : Turn s after taken s')
    (hs : s.Counted) : s'.Counted := by
  have hnegating {s : Scan} (hs : s.Counted) :
      ((s.push (.number "-1")).push (.operator .multiply)).Counted :=
    counted_push (counted_push hs (by decide) (by decide)) (by decide) (by decide)
  cases h with
  | numeral text =>
      exact counted_settle (counted_push (counted_operandStart hs true) (by simp) (by simp))
  | symbol =>
      exact counted_settle (counted_push (counted_operandStart hs false) (by simp) (by simp))
  | call => exact counted_push (counted_operandStart hs false) (by simp) (by simp)
  | capture =>
      exact counted_openGroup (counted_push (counted_operandStart hs false) (by simp) (by simp))
  | opening => exact counted_openGroup (counted_operandStart hs false)
  | closing => exact counted_settle (counted_closing hs _)
  | negation => exact hnegating (counted_openGroup hs)
  | negationOfNothing => exact hnegating hs
  | plus => exact hs
  | operator => exact counted_push hs (by simp) (by simp)
  | stray => exact counted_push hs (by simp) (by simp)

theorem counted_run (cs : List Char) : (start.run cs).Counted :=
  turn_induction (P := fun s _ => s.Counted) (fun ht h => ht.counted h) rfl

theorem counted_finish {s : Scan} (h : s.Counted) : s.finish.Counted := by
  unfold Counted finish at *
  dsimp only
  rw [List.count_append, List.count_append, List.count_replicate_self,
    List.count_replicate, if_neg (by decide)]
  omega

end Scan

namespace Token

/-- Balancing adds what the whole list lacks, on one side. -/
theorem scan_true (cs : List Char) :
    scan true cs =
      List.replicate ((scan false cs).count closing - (scan false cs).count opening) opening ++
        (scan false cs ++
          List.replicate ((scan false cs).count opening - (scan false cs).count closing) closing) := by
  have hcounted := Scan.counted_finish (Scan.counted_run (normalize cs))
  change (Scan.start.run (normalize cs)).finish.balanced = _
  rw [show scan false cs = (Scan.start.run (normalize cs)).finish.inOrder from rfl]
  generalize (Scan.start.run (normalize cs)).finish = s at hcounted
  unfold Scan.Counted at hcounted
  unfold Scan.balanced Scan.inOrder
  rw [List.count_reverse, List.count_reverse, List.append_assoc]
  congr 3
  · omega
  · omega

/-- No prefix lacks more opening parentheses than the whole list. -/
def Mendable (tokens : List Token) : Prop :=
  ∀ p, p <+: tokens →
    p.count closing ≤ (tokens.count closing - tokens.count opening) + p.count opening

theorem nested_scan_true_iff (cs : List Char) :
    Nested opening closing (scan true cs) ↔ Mendable (scan false cs) := by
  have hne : opening ≠ closing := by decide
  rw [scan_true, Nested, Closes.replicate_opening hne, Closes.append_replicate_iff hne,
    Nat.zero_add]
  exact and_iff_left (by omega)

theorem count_scan_true (cs : List Char) :
    (scan true cs).count opening = (scan true cs).count closing := by
  rw [scan_true]
  simp only [List.count_append, List.count_replicate]
  simp
  omega

theorem scan_eq_name_iff {autoBalance : Bool} {cs : List Char} {n : String} :
    scan autoBalance cs = [.name n] ↔ scan false cs = [.name n] := by
  cases autoBalance with
  | false => rfl
  | true =>
      rw [scan_true]
      constructor
      · intro h
        have hnone {k : Nat} {t : Token} (ht : t ≠ .name n) : List.replicate k t ≠ [.name n] := by
          intro hk
          have hmem : Token.name n ∈ List.replicate k t := hk ▸ List.mem_singleton_self _
          exact ht (List.eq_of_mem_replicate hmem).symm
        rcases List.append_eq_singleton_iff.mp h with ⟨_, h⟩ | ⟨h, _⟩
        · rcases List.append_eq_singleton_iff.mp h with ⟨_, h⟩ | ⟨h, _⟩
          · exact absurd h (hnone (by simp))
          · exact h
        · exact absurd h (hnone (by simp))
      · intro h
        rw [h]
        rfl

end Token
end RuleSheet
