import RuleSheet.Proofs.Ruleset.Declared
import RuleSheet.Proofs.Ruleset.Isolation

/-!
# What a pass reports

A pass over a list does what evaluating its statements one after the other does, blank ones
left out. Its report accounts for each of them: a statement that is not blank is counted as
a success, or it is listed as a failure, at its own position, with the cause that evaluating
it gave after the statements before it.

A list may therefore be cut anywhere. The pass over the whole of it is the pass over its
first part, and then one over the rest that begins where the first has ended and removes
nothing. Only positions move, and of the record of events only what is noted about failures
and passes differs.
-/
namespace RuleSheet
variable {W : Type}

namespace Session

/-- Evaluates statements one after the other, whatever they answer. -/
def evaluateAll (s : Session W) (statements : List String) : Act W (Session W) :=
  statements.foldlM (fun s statement => s.answer (.evaluate statement)) s

@[simp] theorem run_evaluateAll_nil (s : Session W) (h : Host W) :
    (s.evaluateAll []).run h = (s, h) :=
  rfl

theorem run_evaluateAll_cons (s : Session W) (statement : String) (rest : List String)
    (h : Host W) :
    (s.evaluateAll (statement :: rest)).run h =
      (((s.evaluate statement).run h).1.2.evaluateAll rest).run
        ((s.evaluate statement).run h).2 := by
  rw [evaluateAll, List.foldlM_cons, StateT.run_bind, run_answer_evaluate]
  rfl

end Session

namespace Failure

/-- The same failure, `offset` positions further on. -/
def shifted (offset : Nat) (f : Failure) : Failure :=
  { f with index := offset + f.index }

end Failure

namespace Ruleset

/-- The statements that a pass evaluates. -/
def nonBlank (statements : List String) : List String :=
  statements.filter fun statement => !isBlankStatement statement

theorem nonBlank_blank {statement : String} (hb : isBlankStatement statement = true)
    (rest : List String) : nonBlank (statement :: rest) = nonBlank rest :=
  List.filter_cons_of_neg (by simp [hb])

theorem nonBlank_cons {statement : String} (hb : isBlankStatement statement = false)
    (rest : List String) : nonBlank (statement :: rest) = statement :: nonBlank rest :=
  List.filter_cons_of_pos (by simp [hb])

/-- The statement at position `n` is not blank, and evaluating it fails with the cause `e` in
the state that the statements before it have led to. -/
def FailsAt (s : Session W) (h : Host W) (statements : List String) (n : Nat)
    (statement : String) (e : StatementError) : Prop :=
  statements[n]? = some statement ∧ isBlankStatement statement = false ∧
    let before := (s.evaluateAll (nonBlank (statements.take n))).run h
    ((before.1.evaluate statement).run before.2).1.1 = .error e

theorem failsAt_zero {s : Session W} {h : Host W} {first statement : String}
    {rest : List String} {e : StatementError} :
    FailsAt s h (first :: rest) 0 statement e ↔
      first = statement ∧ isBlankStatement first = false ∧
        ((s.evaluate first).run h).1.1 = .error e := by
  unfold FailsAt
  rw [List.getElem?_cons_zero, Option.some.injEq]
  refine and_congr_right fun heq => ?_
  rw [heq]
  exact Iff.rfl

theorem failsAt_succ_blank {s : Session W} {h : Host W} {first statement : String}
    (hb : isBlankStatement first = true) {rest : List String} {n : Nat} {e : StatementError} :
    FailsAt s h (first :: rest) (n + 1) statement e ↔ FailsAt s h rest n statement e := by
  unfold FailsAt
  rw [List.getElem?_cons_succ, List.take_succ_cons, nonBlank_blank hb]

theorem failsAt_succ {s : Session W} {h : Host W} {first statement : String}
    (hb : isBlankStatement first = false) {rest : List String} {n : Nat} {e : StatementError} :
    FailsAt s h (first :: rest) (n + 1) statement e ↔
      FailsAt ((s.evaluate first).run h).1.2 ((s.evaluate first).run h).2 rest n statement e := by
  unfold FailsAt
  rw [List.getElem?_cons_succ, List.take_succ_cons, nonBlank_cons hb,
    Session.run_evaluateAll_cons]

/-- A report on statements that were evaluated from a state on: it counts all that are not
blank, and lists those that failed, in order. -/
structure Accounts (s : Session W) (h : Host W) (statements : List String)
    (report : Report) : Prop where
  total : report.applied + report.failures.length = (nonBlank statements).length
  increasing : (report.failures.map Failure.index).Pairwise (· < ·)
  mem_failures : ∀ f, f ∈ report.failures ↔ FailsAt s h statements f.index f.statement f.error

/-- A pass over two lists goes on with the second where it has come to with the first. -/
theorem runFrom_append (s : Session W) (h : Host W) (index : Nat) (earlier later : List String) :
    (runFrom s index (earlier ++ later)).run h =
      let first := (runFrom s index earlier).run h
      let after := (runFrom first.1.2 (index + earlier.length) later).run first.2
      ((⟨first.1.1.applied + after.1.1.applied, first.1.1.failures ++ after.1.1.failures⟩,
        after.1.2), after.2) := by
  induction earlier generalizing s h index with
  | nil =>
      simp only [run_runFrom_nil, List.nil_append, List.length_nil, Nat.add_zero, Nat.zero_add]
      rfl
  | cons statement rest ih =>
      rw [List.cons_append, runFrom_cons, runFrom_cons s h index statement rest]
      simp only [ih, List.length_cons, Nat.add_assoc, List.append_assoc, Nat.add_comm 1]

theorem runFrom_evaluateAll {s : Session W} {h k : Host W} (hk : h.Matches k) (index : Nat)
    (statements : List String) :
    let pass := (runFrom s index statements).run h
    let plain := (s.evaluateAll (nonBlank statements)).run k
    pass.1.2 = plain.1 ∧ pass.2.Matches plain.2 := by
  dsimp only
  induction s, h, index, statements using pass_induction generalizing k with
  | nil s h index => exact ⟨rfl, hk⟩
  | blank s h index statement rest hb ih =>
      rw [runFrom_blank hb, nonBlank_blank hb]
      exact ih hk
  | error s h index statement rest e s' h' hb he ih =>
      obtain ⟨hanswer, hnext⟩ := (s.blind_evaluate statement).matches hk
      rw [nonBlank_cons hb, Session.run_evaluateAll_cons, ← hanswer, runFrom_error hb he]
      rw [he] at hnext ⊢
      exact ih ((Host.matches_record rfl).trans hnext)
  | ok s h index statement rest x s' h' hb he ih =>
      obtain ⟨hanswer, hnext⟩ := (s.blind_evaluate statement).matches hk
      rw [nonBlank_cons hb, Session.run_evaluateAll_cons, ← hanswer, runFrom_ok hb he]
      rw [he] at hnext ⊢
      exact ih hnext

/-- Only the positions in the report depend on where in a list the statements stand. -/
theorem runFrom_shifted {s : Session W} {h k : Host W} (hk : h.Matches k) (offset index : Nat)
    (statements : List String) :
    let pass := (runFrom s (offset + index) statements).run h
    let alone := (runFrom s index statements).run k
    pass.1.1 = ⟨alone.1.1.applied, alone.1.1.failures.map (Failure.shifted offset)⟩ := by
  dsimp only
  induction s, k, index, statements using pass_induction generalizing h with
  | nil s k index => rfl
  | blank s k index statement rest hb ih =>
      rw [runFrom_blank hb, runFrom_blank hb]
      exact ih hk
  | error s k index statement rest e s' k' hb he ih =>
      obtain ⟨hanswer, hnext⟩ := (s.blind_evaluate statement).matches hk
      rw [he] at hanswer hnext
      have he' : (s.evaluate statement).run h =
          ((.error e, s'), ((s.evaluate statement).run h).2) := Prod.ext hanswer rfl
      have hrecorded (j : Host W) (i : Nat) : (j.record [.failed i statement e]).Matches j :=
        Host.matches_record rfl
      have hrest := ih ((hrecorded _ (offset + index)).trans
        (hnext.trans (hrecorded _ index).symm))
      rw [runFrom_error hb he, runFrom_error hb he']
      dsimp only
      rw [Nat.add_assoc, hrest]
      rfl
  | ok s k index statement rest x s' k' hb he ih =>
      obtain ⟨hanswer, hnext⟩ := (s.blind_evaluate statement).matches hk
      rw [he] at hanswer hnext
      have he' : (s.evaluate statement).run h =
          ((.ok x, s'), ((s.evaluate statement).run h).2) := Prod.ext hanswer rfl
      rw [runFrom_ok hb he, runFrom_ok hb he']
      dsimp only
      rw [Nat.add_assoc, ih hnext]

theorem total_runFrom (s : Session W) (h : Host W) (index : Nat) (statements : List String) :
    let report := ((runFrom s index statements).run h).1.1
    report.applied + report.failures.length = (nonBlank statements).length := by
  dsimp only
  induction s, h, index, statements using pass_induction with
  | nil s h index => rfl
  | blank s h index statement rest hb ih =>
      rw [runFrom_blank hb, nonBlank_blank hb]
      exact ih
  | error s h index statement rest e s' h' hb he ih =>
      rw [nonBlank_cons hb, List.length_cons, runFrom_error hb he, ← ih]
      exact (Nat.add_assoc _ _ 1).symm
  | ok s h index statement rest x s' h' hb he ih =>
      rw [nonBlank_cons hb, List.length_cons, runFrom_ok hb he, ← ih]
      exact Nat.add_right_comm _ 1 _

theorem increasing_runFrom (s : Session W) (h : Host W) (index : Nat)
    (statements : List String) :
    (((runFrom s index statements).run h).1.1.failures.map Failure.index).Pairwise (· < ·) := by
  induction s, h, index, statements using pass_induction with
  | nil s h index => exact .nil
  | blank s h index statement rest hb ih =>
      rw [runFrom_blank hb]
      exact ih
  | error s h index statement rest e s' h' hb he ih =>
      rw [runFrom_error hb he]
      refine List.pairwise_cons.mpr ⟨fun i hi => ?_, ih⟩
      obtain ⟨f, hf, rfl⟩ := List.mem_map.mp hi
      exact le_index_of_mem_failures hf
  | ok s h index statement rest x s' h' hb he ih =>
      rw [runFrom_ok hb he]
      exact ih

theorem exists_failsAt_cons {s : Session W} {h : Host W} {index : Nat} {first : String}
    {rest : List String} {f : Failure} :
    (∃ n, f.index = index + n ∧ FailsAt s h (first :: rest) n f.statement f.error) ↔
      (f.index = index ∧ FailsAt s h (first :: rest) 0 f.statement f.error) ∨
        ∃ n, f.index = index + 1 + n ∧
          FailsAt s h (first :: rest) (n + 1) f.statement f.error := by
  constructor
  · rintro ⟨n, hindex, hf⟩
    cases n with
    | zero => exact .inl ⟨hindex, hf⟩
    | succ n => exact .inr ⟨n, by omega, hf⟩
  · rintro (⟨hindex, hf⟩ | ⟨n, hindex, hf⟩)
    · exact ⟨0, hindex, hf⟩
    · exact ⟨n + 1, by omega, hf⟩

/-- The failures of a pass are the statements that fail. The invariant is that the pass is in
the session that the statements before have led to, and in a state that matches theirs. -/
theorem mem_failures_runFrom {s : Session W} {h k : Host W} (hk : h.Matches k) (index : Nat)
    (statements : List String) (f : Failure) :
    f ∈ ((runFrom s index statements).run h).1.1.failures ↔
      ∃ n, f.index = index + n ∧ FailsAt s k statements n f.statement f.error := by
  induction s, h, index, statements using pass_induction generalizing k with
  | nil s h index =>
      refine iff_of_false List.not_mem_nil fun hf => ?_
      obtain ⟨n, _, hstatement, _⟩ := hf
      simp at hstatement
  | blank s h index statement rest hb ih =>
      rw [exists_failsAt_cons, failsAt_zero, runFrom_blank hb, ih hk, or_iff_right (by simp [hb])]
      simp only [failsAt_succ_blank hb]
  | error s h index statement rest e s' h' hb he ih =>
      obtain ⟨hanswer, hnext⟩ := (s.blind_evaluate statement).matches hk
      rw [he] at hanswer hnext
      rw [exists_failsAt_cons, failsAt_zero, runFrom_error hb he, List.mem_cons,
        ih ((Host.matches_record rfl).trans hnext)]
      simp only [failsAt_succ hb, ← hanswer]
      refine or_congr_left ?_
      constructor
      · rintro rfl
        exact ⟨rfl, rfl, hb, rfl⟩
      · rintro ⟨hindex, hstatement, _, herror⟩
        obtain ⟨i, st, e'⟩ := f
        cases hindex
        cases hstatement
        cases herror
        rfl
  | ok s h index statement rest x s' h' hb he ih =>
      obtain ⟨hanswer, hnext⟩ := (s.blind_evaluate statement).matches hk
      rw [he] at hanswer hnext
      rw [exists_failsAt_cons, failsAt_zero, runFrom_ok hb he, ih hnext, or_iff_right]
      · simp only [failsAt_succ hb, ← hanswer]
      · rintro ⟨_, _, _, herror⟩
        rw [← hanswer] at herror
        cases herror

theorem accounts_runFrom (s : Session W) (h : Host W) (statements : List String) :
    Accounts s h statements ((runFrom s 0 statements).run h).1.1 where
  total := total_runFrom s h 0 statements
  increasing := increasing_runFrom s h 0 statements
  mem_failures f := by
    rw [mem_failures_runFrom (.refl h)]
    simp only [Nat.zero_add]
    exact ⟨fun ⟨n, hn, hf⟩ => hn ▸ hf, fun hf => ⟨_, rfl, hf⟩⟩

/-- The ruleset with another list. -/
def withStatements (r : Ruleset W) (statements : List String) : Ruleset W :=
  { r with constraints := statements }

/-- The ruleset goes on with another list, in the session as it is: nothing is forgotten. -/
def resuming (r : Ruleset W) (statements : List String) : Ruleset W :=
  { r with constraints := statements, declared := [] }

@[simp] theorem cleared_resuming (r : Ruleset W) (statements : List String) :
    (r.resuming statements).cleared = r.session := by
  unfold cleared
  split
  · rfl
  · rfl

/-! What is seen of a pass is what its statements have done. -/

theorem report_apply (r : Ruleset W) (h : Host W) :
    (r.apply.run h).1.1 = ((runFrom r.cleared 0 r.constraints).run h).1.1 := by
  rw [run_apply]

theorem session_apply (r : Ruleset W) (h : Host W) :
    (r.apply.run h).1.2.session = ((runFrom r.cleared 0 r.constraints).run h).1.2 := by
  rw [run_apply]

theorem matches_apply (r : Ruleset W) (h : Host W) :
    (r.apply.run h).2.Matches ((runFrom r.cleared 0 r.constraints).run h).2 := by
  rw [run_apply]
  exact Host.matches_record rfl

/-- A pass over two lists leaves the session and the world as the pass over the first of them
and then the statements of the second. It reports what the two passes report, with the
positions of the second moved, and the report accounts for every statement. -/
theorem apply_append (r : Ruleset W) (h : Host W) (earlier later : List String) :
    let whole := (r.withStatements (earlier ++ later)).apply.run h
    let first := (r.withStatements earlier).apply.run h
    let second := (first.1.2.resuming later).apply.run first.2
    let plain := (first.1.2.session.evaluateAll (nonBlank later)).run first.2
    whole.1.2.session = plain.1 ∧ whole.2.Matches plain.2 ∧
    whole.1.1.applied = first.1.1.applied + second.1.1.applied ∧
    whole.1.1.failures =
      first.1.1.failures ++ second.1.1.failures.map (Failure.shifted earlier.length) ∧
    Accounts r.cleared h (earlier ++ later) whole.1.1 := by
  intro whole first second plain
  have hfirst : first.2.Matches ((runFrom r.cleared 0 earlier).run h).2 :=
    matches_apply (r.withStatements earlier) h
  have hsession : first.1.2.session = ((runFrom r.cleared 0 earlier).run h).1.2 :=
    session_apply (r.withStatements earlier) h
  have happend := runFrom_append r.cleared h 0 earlier later
  dsimp only at happend
  rw [← hsession] at happend
  obtain ⟨hleft, hmatches⟩ :=
    runFrom_evaluateAll (s := first.1.2.session) hfirst.symm (0 + earlier.length) later
  have hshifted := runFrom_shifted (s := first.1.2.session) hfirst.symm earlier.length 0 later
  rw [Nat.add_comm] at hshifted
  have hsecond : second.1.1 = ((runFrom first.1.2.session 0 later).run first.2).1.1 := by
    rw [← cleared_resuming first.1.2 later]
    exact report_apply (first.1.2.resuming later) first.2
  dsimp only at hshifted
  rw [← hsecond] at hshifted
  have hreport : whole.1.1 = ((runFrom r.cleared 0 (earlier ++ later)).run h).1.1 :=
    report_apply (r.withStatements (earlier ++ later)) h
  refine ⟨?_, ?_, ?_, ?_, ?_⟩
  · rw [← hleft]
    exact (session_apply (r.withStatements (earlier ++ later)) h).trans
      (congrArg (fun out => out.1.2) happend)
  · exact (matches_apply (r.withStatements (earlier ++ later)) h).trans
      ((congrArg Prod.snd happend).symm ▸ hmatches)
  · rw [hreport, happend, hshifted]
    rfl
  · rw [hreport, happend, hshifted]
    rfl
  · rw [hreport]
    exact accounts_runFrom r.cleared h (earlier ++ later)

end Ruleset
end RuleSheet
