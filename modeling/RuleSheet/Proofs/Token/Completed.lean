import RuleSheet.Proofs.Token.Shifted

/-!
# Balancing by writing the parentheses

What balancing adds at one end of the tokens can be written at the same end of the text. At
the beginning this is so because a text is scanned in the same way further in. At the end a
written parenthesis may do less than it seems: it may close a group that the scanner has
opened, and it brings with it those that are owed their end there. But each of them lowers
the depth, and the number of groups that the text has open goes down by one at most. So
there is a number of parentheses after which the text has none open, and on the way there
the completed tokens stay the same.
-/
namespace RuleSheet

namespace Scan

/-! How many groups the text has open. -/

/-- A written closing parenthesis closes one group of the text, or one that was owed its end. -/
theorem written_le_close (s : Scan) : s.written ≤ s.close.written + 1 := by
  have hlength := (List.dropWhile_sublist (fun d => s.depth - 1 < d) (l := s.closers)).length_le
  have hclose : s.close.written =
      s.depth - 1 - (s.closers.dropWhile fun d => s.depth - 1 < d).length :=
    written_settle _ _ _
  rw [hclose, written]
  omega

/-- Every turn leaves open at least what the text opens beyond what it closes. -/
theorem Turn.written_le {s s' : Scan} {after taken : List Char} (h : Turn s after taken s') :
    s.written + taken.count '(' ≤ s'.written + taken.count ')' := by
  rcases h.written_cases with ⟨rfl, hmore⟩ | ⟨rfl, rfl⟩ | ⟨⟨hopening, -⟩, hsame⟩
  · rw [hmore]
    simp
  · have hle := s.written_le_close
    simpa using hle
  · rw [hsame, List.count_eq_zero_of_not_mem hopening]
    omega

theorem written_le_run (s : Scan) (cs : List Char) :
    s.written + cs.count '(' ≤ (s.run cs).written + cs.count ')' := by
  have hrun : s.written + cs.count '(' + ([] : List Char).count ')' ≤
      (s.run cs).written + cs.count ')' + ([] : List Char).count '(' := by
    refine turn_induction (P := fun s' rest => s.written + cs.count '(' + rest.count ')' ≤
      s'.written + cs.count ')' + rest.count '(') (fun ht h => ?_) (by omega)
    have hle := ht.written_le
    rw [List.count_append, List.count_append] at h
    omega
  simpa using hrun

/-! The tokens with the closing parentheses that complete them. -/

/-- The tokens so far, and a closing parenthesis for every group that is open. -/
def completed (s : Scan) : List Token :=
  s.inOrder ++ List.replicate s.depth.toNat .closing

theorem completed_closing (tokens : List Token) {depth : Int} (h : 0 < depth)
    (closers owed : List Int) :
    completed ⟨.closing :: tokens, depth - 1, closers⟩ = completed ⟨tokens, depth, owed⟩ := by
  have hdepth : depth.toNat = (depth - 1).toNat + 1 := by omega
  unfold completed inOrder
  dsimp only
  rw [hdepth, List.replicate_succ, List.reverse_cons, List.append_assoc]
  rfl

theorem completed_settle {tokens : List Token} {depth : Int} {closers : List Int}
    (h : 0 ≤ (settle tokens depth closers).depth) (owed : List Int) :
    (settle tokens depth closers).completed = completed ⟨tokens, depth, owed⟩ := by
  induction closers generalizing tokens depth with
  | nil => rfl
  | cons d rest ih =>
      rw [settle] at h ⊢
      split at h
      · rename_i hd
        have hle := depth_settle_le (.closing :: tokens) (depth - 1) rest
        rw [if_pos hd, ih h]
        exact completed_closing tokens (by omega) _ _
      · rename_i hd
        rw [if_neg hd]
        rfl

theorem completed_close {s : Scan} (h : 0 ≤ s.close.depth) : s.close.completed = s.completed := by
  have hlt := s.depth_close_lt
  exact (completed_settle h []).trans (completed_closing s.tokens (by omega) _ _)

theorem depth_of_written {s : Scan} (h : 0 ≤ s.written) : 0 ≤ s.depth := by
  unfold written at h
  omega

theorem balanced_finish {s : Scan} (h : 0 ≤ s.written) : s.finish.balanced = s.completed := by
  unfold written at h
  have hnone : (-(s.depth - s.closers.length)).toNat = 0 := by omega
  have hsum : s.depth.toNat = s.closers.length + (s.depth - s.closers.length).toNat := by omega
  unfold finish balanced completed inOrder
  dsimp only
  rw [hnone, hsum, List.replicate_zero, List.nil_append, List.reverse_append,
    List.reverse_replicate, List.append_assoc, List.replicate_append_replicate]

/-- Once the text has no group open, the scanner completes the tokens by itself. -/
theorem inOrder_finish {s : Scan} (h : s.written = 0) : s.finish.inOrder = s.completed := by
  unfold written at h
  have hdepth : s.depth.toNat = s.closers.length := by omega
  simp [finish, completed, inOrder, hdepth]

theorem completed_run_closings {s : Scan} {count : Nat} (h : count ≤ s.written) :
    0 ≤ (s.run (List.replicate count ')')).written ∧
      (s.run (List.replicate count ')')).completed = s.completed := by
  induction count generalizing s with
  | zero =>
      rw [List.replicate_zero, run_nil]
      exact ⟨h, rfl⟩
  | succ count ih =>
      have hle := s.written_le_close
      have hclose : count ≤ s.close.written := by omega
      obtain ⟨hwritten, hsame⟩ := ih hclose
      rw [List.replicate_succ, run_cons, step_closing]
      exact ⟨hwritten, hsame.trans (completed_close (depth_of_written (by omega)))⟩

/-- Some number of closing parentheses leaves no group of the text open: each lowers the depth,
whatever group it closes. -/
theorem exists_run_closings {s : Scan} (h : 0 ≤ s.written) :
    ∃ count, (s.run (List.replicate count ')')).written = 0 ∧
      (s.run (List.replicate count ')')).completed = s.completed := by
  induction hdepth : s.depth.toNat using Nat.strong_induction_on generalizing s with
  | _ depth ih =>
      by_cases hzero : s.written = 0
      · refine ⟨0, ?_⟩
        rw [List.replicate_zero, run_nil]
        exact ⟨hzero, rfl⟩
      · have hle := s.written_le_close
        have hlt := s.depth_close_lt
        have hclose : 0 ≤ s.close.written := by omega
        have hnonneg := depth_of_written hclose
        obtain ⟨count, hwritten, hsame⟩ := ih _ (by omega) hclose rfl
        refine ⟨count + 1, ?_⟩
        rw [List.replicate_succ, run_cons, step_closing]
        exact ⟨hwritten, hsame.trans (completed_close hnonneg)⟩

theorem run_append_closings (s : Scan) (cs : List Char) (count : Nat) :
    s.run (cs ++ List.replicate count ')') = (s.run cs).run (List.replicate count ')') := by
  cases count with
  | zero => rw [List.replicate_zero, List.append_nil, run_nil]
  | succ count => exact run_append_closing s cs _

end Scan

namespace Token

theorem run_normalize_closings (cs : List Char) (count : Nat) :
    Scan.start.run (normalize (cs ++ List.replicate count ')')) =
      (Scan.start.run (normalize cs)).run (List.replicate count ')') := by
  rw [normalize_append, normalize_replicate (by decide) (by decide), Scan.run_append_closings]

/-- If the text has groups open at its end, some number of closing parentheses completes it. -/
theorem exists_scan_closings {cs : List Char}
    (h : 0 ≤ (Scan.start.run (normalize cs)).written) :
    ∃ count, scan false (cs ++ List.replicate count ')') = scan true cs := by
  obtain ⟨count, hzero, hsame⟩ := Scan.exists_run_closings h
  refine ⟨count, ?_⟩
  change (Scan.start.run (normalize _)).finish.inOrder = _
  rw [run_normalize_closings, Scan.inOrder_finish hzero, hsame, ← Scan.balanced_finish h]
  rfl

/-- If it has closed more than was open, opening parentheses before it complete it. -/
theorem exists_scan_openings {cs : List Char}
    (h : (Scan.start.run (normalize cs)).written ≤ 0) :
    ∃ count, scan false (List.replicate count '(' ++ cs) = scan true cs := by
  rw [Scan.written_run] at h
  change ((scan false cs).count opening : Int) - (scan false cs).count closing ≤ 0 at h
  refine ⟨(scan false cs).count closing - (scan false cs).count opening, ?_⟩
  have hclosings : (scan false cs).count opening - (scan false cs).count closing = 0 := by omega
  rw [scan_openings, scan_true, hclosings, List.replicate_zero, List.append_nil]

/-- The tokens of a balanced text are those of the text without balancing when the right
number of parentheses is written at one of its ends. Closing parentheses that a text lacks may
always be written: balancing then adds so many fewer. -/
theorem scan_completed (cs : List Char) :
    (∃ openings closings, (openings = 0 ∨ closings = 0) ∧
      scan false (List.replicate openings '(' ++ cs ++ List.replicate closings ')') =
        scan true cs) ∧
      ∀ count, cs.count ')' + count ≤ cs.count '(' →
        scan true (cs ++ List.replicate count ')') = scan true cs := by
  constructor
  · rcases Int.le_total 0 (Scan.start.run (normalize cs)).written with h | h
    · obtain ⟨count, hscan⟩ := exists_scan_closings h
      exact ⟨0, count, .inl rfl, hscan⟩
    · obtain ⟨count, hscan⟩ := exists_scan_openings h
      exact ⟨count, 0, .inr rfl, by rw [List.replicate_zero, List.append_nil, hscan]⟩
  · intro count hcount
    have hopen := Scan.written_le_run .start (normalize cs)
    rw [count_normalize (by decide) (by decide), count_normalize (by decide) (by decide)] at hopen
    have hstart : Scan.start.written = 0 := rfl
    have hwritten : (count : Int) ≤ (Scan.start.run (normalize cs)).written := by omega
    obtain ⟨hleft, hsame⟩ := Scan.completed_run_closings hwritten
    change (Scan.start.run (normalize _)).finish.balanced =
      (Scan.start.run (normalize cs)).finish.balanced
    rw [run_normalize_closings, Scan.balanced_finish hleft, hsame,
      Scan.balanced_finish (by omega)]

/-- The first of the two parentheses closes three groups, two of them opened by the scanner. -/
theorem scan_completed_captured :
    "2(abs-(3+4".toList.count ')' + 2 ≤ "2(abs-(3+4".toList.count '(' ∧
      scan true ("2(abs-(3+4".toList ++ List.replicate 2 ')') = scan true "2(abs-(3+4".toList := by
  have hcount : "2(abs-(3+4".toList.count ')' + 2 ≤ "2(abs-(3+4".toList.count '(' := by decide
  exact ⟨hcount, (scan_completed "2(abs-(3+4".toList).2 2 hcount⟩

end Token
end RuleSheet
