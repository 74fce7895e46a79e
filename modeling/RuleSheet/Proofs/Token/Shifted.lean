import RuleSheet.Proofs.Token.Lookahead
import RuleSheet.Proofs.Token.Written

/-!
# Scanning further in

The scanner compares depths with each other only, and of the tokens that it has it looks at
the last one only. So a text is scanned in the same way wherever an operand is expected: the
tokens are put on those that are there, and the depths are counted from the depth there. The
groups that are owed their end there must lie further out than everything that the text does,
or the text would end one of them. After opening parentheses alone there are none, so any text
is scanned there as it is by itself.
-/
namespace RuleSheet

namespace Scan

/-- The state of a scan that has begun in the state `b`, where `s` is its state if it has begun
at the start of a text. -/
def onto (s b : Scan) : Scan :=
  ⟨s.tokens ++ b.tokens, s.depth + b.depth, s.closers.map (· + b.depth) ++ b.closers⟩

@[simp] theorem start_onto (b : Scan) : start.onto b = b := by
  simp [start, onto]

/-- The groups that were owed their end before the scan began lie further out than the depth
that it has come to. -/
def Inside (b s : Scan) : Prop :=
  ∀ d ∈ b.closers, d < s.depth + b.depth

theorem depth_settle_le (tokens : List Token) (depth : Int) (closers : List Int) :
    (settle tokens depth closers).depth ≤ depth := by
  induction closers generalizing tokens depth with
  | nil => exact Int.le_refl depth
  | cons d rest ih =>
      rw [settle]
      split
      · have hle := ih (.closing :: tokens) (depth - 1)
        omega
      · exact Int.le_refl depth

section
variable {b s : Scan}

@[simp] theorem push_onto (t : Token) : (s.onto b).push t = (s.push t).onto b := rfl

@[simp] theorem openGroup_onto : (s.onto b).openGroup = s.openGroup.onto b := by
  unfold openGroup onto
  dsimp only
  rw [Int.add_right_comm]
  rfl

@[simp] theorem owe_onto : (s.onto b).owe = s.owe.onto b := rfl

theorem settle_onto {tokens : List Token} {depth : Int} {closers : List Int}
    (h : b.Inside (settle tokens depth closers)) :
    settle (tokens ++ b.tokens) (depth + b.depth) (closers.map (· + b.depth) ++ b.closers) =
      (settle tokens depth closers).onto b := by
  induction closers generalizing tokens depth with
  | nil => exact settle_of_lt h
  | cons d rest ih =>
      rw [List.map_cons, List.cons_append]
      rw [settle] at h ⊢
      rw [settle]
      by_cases hd : d = depth
      · rw [if_pos hd] at h
        have hless : depth + b.depth - 1 = depth - 1 + b.depth := by omega
        rw [if_pos (by omega), if_pos hd, ← ih h, hless]
        rfl
      · rw [if_neg (by omega), if_neg hd]
        rfl

theorem operandEnd_onto (h : b.Inside s.operandEnd) :
    (s.onto b).operandEnd = s.operandEnd.onto b :=
  settle_onto h

/-- A written closing parenthesis looks for owed groups among those that the scan has opened. -/
theorem dropWhile_onto {depth : Int} (h : ∀ d ∈ b.closers, d ≤ depth + b.depth)
    (closers : List Int) :
    (closers.map (· + b.depth) ++ b.closers).dropWhile (fun d => depth + b.depth < d) =
      (closers.dropWhile fun d => depth < d).map (· + b.depth) ++ b.closers := by
  induction closers with
  | nil => exact dropWhile_of_le h
  | cons d rest ih =>
      rw [List.map_cons, List.cons_append]
      by_cases hd : depth < d
      · rw [List.dropWhile_cons_of_pos (by simpa using hd),
          List.dropWhile_cons_of_pos (by simpa using hd), ih]
      · rw [List.dropWhile_cons_of_neg (by simpa using hd),
          List.dropWhile_cons_of_neg (by simpa using hd)]
        rfl

theorem depth_close_lt (s : Scan) : s.close.depth < s.depth := by
  have hle : s.close.depth ≤ s.depth - 1 := depth_settle_le _ _ _
  omega

theorem close_onto (h : b.Inside s.close) : (s.onto b).close = s.close.onto b := by
  have hbelow : ∀ d ∈ b.closers, d ≤ s.depth - 1 + b.depth := by
    intro d hd
    have hlt := h d hd
    have hless := s.depth_close_lt
    omega
  have hdepth : s.depth + b.depth - 1 = s.depth - 1 + b.depth := by omega
  change settle (.closing :: (s.tokens ++ b.tokens)) (s.depth + b.depth - 1)
    ((s.closers.map (· + b.depth) ++ b.closers).dropWhile fun d => s.depth + b.depth - 1 < d) = _
  rw [hdepth, dropWhile_onto hbelow]
  exact settle_onto h

variable (hb : b.expectsOperand = true)
include hb

@[simp] theorem expectsOperand_onto : (s.onto b).expectsOperand = s.expectsOperand := by
  cases s with
  | mk tokens depth closers =>
      cases tokens with
      | nil => exact hb
      | cons t rest => rfl

@[simp] theorem operandStart_onto (numeral : Bool) :
    (s.onto b).operandStart numeral = (s.operandStart numeral).onto b := by
  obtain ⟨tokens, depth, closers⟩ := s
  cases tokens with
  | nil =>
      have he : (onto ⟨[], depth, closers⟩ b).expectsOperand = true := expectsOperand_onto hb
      rw [operandStart_of_expectsOperand he, operandStart_of_expectsOperand rfl]
  | cons t rest =>
      unfold operandStart onto
      dsimp only
      rw [List.cons_append, List.head?_cons, List.head?_cons]
      split
      · rfl
      · rfl

/-! Each way in which a step can go is the same further in. -/

theorem numeral_onto {sign cs : List Char} (h : b.Inside (s.numeral sign cs).1) :
    (s.onto b).numeral sign cs = ((s.numeral sign cs).1.onto b, (s.numeral sign cs).2) := by
  unfold numeral at h ⊢
  dsimp only at h ⊢
  rw [operandStart_onto hb, push_onto, operandEnd_onto h]

theorem name_onto {cs : List Char} (h : b.Inside (s.name cs).1) :
    (s.onto b).name cs = ((s.name cs).1.onto b, (s.name cs).2) := by
  unfold name at h ⊢
  dsimp only at h ⊢
  rw [operandStart_onto hb, push_onto]
  split at h
  · rename_i hn
    rw [if_pos hn, if_pos hn]
    split
    · rfl
    · rw [openGroup_onto, owe_onto]
  · rename_i hn
    rw [if_neg hn, if_neg hn, operandEnd_onto h]

theorem minus_onto {rest : List Char} (h : b.Inside (s.minus rest).1) :
    (s.onto b).minus rest = ((s.minus rest).1.onto b, (s.minus rest).2) := by
  unfold minus at h ⊢
  cases rest with
  | nil => rfl
  | cons c more =>
      dsimp only at h ⊢
      split
      · rename_i hc
        rw [if_pos hc] at h
        exact numeral_onto hb h
      · split
        · rw [openGroup_onto]
          rfl
        · rfl

theorem step_onto {c : Char} {rest : List Char} (h : b.Inside (s.step c rest).1) :
    (s.onto b).step c rest = ((s.step c rest).1.onto b, (s.step c rest).2) := by
  unfold step at h ⊢
  split
  · rename_i hc
    rw [if_pos hc] at h
    exact numeral_onto hb h
  rename_i hnumeral
  rw [if_neg hnumeral] at h
  split
  · rename_i hc
    rw [if_pos hc] at h
    exact name_onto hb h
  rename_i hname
  rw [if_neg hname] at h
  split
  · rw [operandStart_onto hb, openGroup_onto]
  rename_i hopening
  rw [if_neg hopening] at h
  split
  · rename_i hc
    rw [if_pos hc] at h
    rw [close_onto h]
  rename_i hclosing
  rw [if_neg hclosing] at h
  cases hop : Operator.ofChar? c with
  | none => rfl
  | some op =>
      rw [hop] at h
      dsimp only at h ⊢
      unfold operator at h ⊢
      rw [expectsOperand_onto hb]
      split
      · rename_i hminus
        rw [if_pos hminus] at h
        exact minus_onto hb h
      · split
        · rfl
        · rfl

/-- A text is scanned further in as it is by itself, if it comes nowhere as far out as the
groups that are owed their end there. -/
theorem Reads.onto {s' : Scan} {cs rest : List Char} (hr : Reads s cs s' rest)
    (h : ∀ t after, Reads s cs t after → Reads t after s' rest → b.Inside t) :
    Reads (s.onto b) cs (s'.onto b) rest := by
  induction hr with
  | refl s cs => exact .refl _ cs
  | @step s s' c cs rest hr ih =>
      have hnext := h _ _ (.step (.refl _ _)) hr
      refine .step ?_
      rw [step_onto hb hnext]
      exact ih fun t after hfrom hto => h t after (.step hfrom) hto

end

/-- The state `count` levels further in. As many opening parentheses come before the tokens. -/
def deeper (s : Scan) (count : Nat) : Scan :=
  ⟨s.tokens ++ List.replicate count .opening, s.depth + count,
    s.closers.map (· + (count : Int))⟩

@[simp] theorem onto_openings (s : Scan) (count : Nat) :
    s.onto (start.deeper count) = s.deeper count := by
  simp [onto, deeper, start]

@[simp] theorem expectsOperand_openings (count : Nat) :
    (start.deeper count).expectsOperand = true := by
  cases count with
  | zero => rfl
  | succ count => rfl

theorem reads_openings (count : Nat) (cs : List Char) :
    Reads start (List.replicate count '(' ++ cs) (start.deeper count) cs := by
  induction count generalizing cs with
  | zero => exact .refl start cs
  | succ count ih =>
      have hstep : (start.deeper count).step '(' cs = (start.deeper (count + 1), cs) := by
        rw [step_opening, operandStart_of_expectsOperand (expectsOperand_openings count)]
        simp [openGroup, deeper, start, List.replicate_succ]
      rw [List.replicate_succ', List.append_assoc, List.singleton_append]
      refine (ih ('(' :: cs)).trans (.step ?_)
      rw [hstep]
      exact .refl _ cs

theorem Reads.deeper {s : Scan} {cs rest : List Char} (h : Reads start cs s rest) (count : Nat) :
    Reads start (List.replicate count '(' ++ cs) (s.deeper count) rest := by
  have hinside (t : Scan) : Inside (start.deeper count) t := by
    intro d hd
    cases hd
  have honto := h.onto (expectsOperand_openings count) fun t _ _ _ => hinside t
  rw [start_onto, onto_openings] at honto
  exact (reads_openings count cs).trans honto

@[simp] theorem run_openings (count : Nat) (cs : List Char) :
    start.run (List.replicate count '(' ++ cs) = (start.run cs).deeper count := by
  rw [((reads_run start cs).deeper count).run, run_nil]

end Scan

namespace Token

@[simp] theorem normalize_openings (count : Nat) (cs : List Char) :
    normalize (List.replicate count '(' ++ cs) = List.replicate count '(' ++ normalize cs := by
  rw [normalize_append, normalize_replicate (by decide) (by decide)]

@[simp] theorem scan_openings (count : Nat) (cs : List Char) :
    scan false (List.replicate count '(' ++ cs) =
      List.replicate count opening ++ scan false cs := by
  change (Scan.start.run (normalize _)).finish.inOrder =
    _ ++ (Scan.start.run (normalize cs)).finish.inOrder
  rw [normalize_openings, Scan.run_openings]
  simp [Scan.finish, Scan.inOrder, Scan.deeper]

/-- After any number of opening parentheses a text is scanned as it is by itself. The scan
comes through the same states, with all depths greater by that number, and the tokens that it
ends with are the same. -/
theorem scan_deeper (count : Nat) (cs : List Char) :
    (∀ s rest, Scan.Reads .start (normalize cs) s rest →
      Scan.Reads .start (normalize (List.replicate count '(' ++ cs)) (s.deeper count) rest) ∧
    Scan.start.run (normalize (List.replicate count '(' ++ cs)) =
      (Scan.start.run (normalize cs)).deeper count ∧
    scan false (List.replicate count '(' ++ cs) = List.replicate count opening ++ scan false cs := by
  rw [normalize_openings]
  exact ⟨fun s rest h => h.deeper count, Scan.run_openings count (normalize cs),
    scan_openings count cs⟩

/-- Two groups of the scanner are open there, and the depth was below zero before them. -/
theorem scan_deeper_below_zero :
    ∃ s, Scan.Reads .start (normalize "1) Abs-(2".toList) s [] ∧ s.depth = 2 ∧ s.closers = [1, 0] ∧
      Scan.Reads .start (normalize (List.replicate 3 '(' ++ "1) Abs-(2".toList)) (s.deeper 3) [] ∧
      Scan.start.run (normalize (List.replicate 3 '(' ++ "1) Abs-(2".toList)) =
        (Scan.start.run (normalize "1) Abs-(2".toList)).deeper 3 ∧
      scan false (List.replicate 3 '(' ++ "1) Abs-(2".toList) =
        List.replicate 3 opening ++ scan false "1) Abs-(2".toList := by
  have hreads := Scan.reads_run .start (normalize "1) Abs-(2".toList)
  obtain ⟨hstates, hlast⟩ := scan_deeper 3 "1) Abs-(2".toList
  exact ⟨_, hreads, by decide +kernel, by decide +kernel, hstates _ _ hreads, hlast⟩

end Token
end RuleSheet
