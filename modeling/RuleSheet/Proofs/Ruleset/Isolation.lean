import RuleSheet.Proofs.Record
import RuleSheet.Proofs.Ruleset.Repeat

/-!
# Statements that fail do nothing

Where no getter changes the world, the statements of a pass that fail might as well not be
there. A second pass, from the same state and over those statements alone that succeeded in
the first, finds each of them in the state in which the first found it, though not at the
same position and not with the same record. All of them succeed again, with the same calls
of setters and the same table and world at the end.
-/
namespace RuleSheet
variable {W : Type}

namespace Report

/-- The statement at a position succeeded: it is not blank and not among the failures. -/
def isSuccess (report : Report) (entry : String × Nat) : Bool :=
  !Ruleset.isBlankStatement entry.1 && !(report.failures.map Failure.index).contains entry.2

/-- Of the statements from position `index` on, those that succeeded. -/
def successes (report : Report) (index : Nat) (statements : List String) : List String :=
  ((statements.zipIdx index).filter report.isSuccess).map Prod.fst

variable {applied : Nat} {failures : List Failure} {index : Nat} {statement : String}

theorem successes_blank (hb : Ruleset.isBlankStatement statement = true) (report : Report)
    (rest : List String) :
    report.successes index (statement :: rest) = report.successes (index + 1) rest := by
  unfold successes
  rw [List.zipIdx_cons, List.filter_cons_of_neg (by simp [isSuccess, hb])]

theorem successes_ok (hb : Ruleset.isBlankStatement statement = false)
    (hlater : ∀ f ∈ failures, index < f.index) (rest : List String) (applied' : Nat) :
    (Report.mk applied failures).successes index (statement :: rest) =
      statement :: (Report.mk applied' failures).successes (index + 1) rest := by
  have hnot : index ∉ failures.map Failure.index := by
    intro hmem
    obtain ⟨f, hf, heq⟩ := List.mem_map.mp hmem
    exact absurd heq (Nat.ne_of_gt (hlater f hf))
  unfold successes
  rw [List.zipIdx_cons, List.filter_cons_of_pos (by simpa [isSuccess, hb] using hnot)]
  rfl

theorem successes_error (e : StatementError) (rest : List String) :
    (Report.mk applied (⟨index, statement, e⟩ :: failures)).successes index (statement :: rest) =
      (Report.mk applied failures).successes (index + 1) rest := by
  unfold successes
  rw [List.zipIdx_cons, List.filter_cons_of_neg (by simp [isSuccess])]
  congr 1
  refine List.filter_congr fun entry hentry => ?_
  have hposition : entry.2 ≠ index := by
    have hle := List.le_snd_of_mem_zipIdx hentry
    omega
  simp [isSuccess, hposition]

end Report

namespace Ruleset

theorem le_index_of_mem_failures {s : Session W} {h : Host W} {index : Nat}
    {statements : List String} {f : Failure}
    (hf : f ∈ ((runFrom s index statements).run h).1.1.failures) : index ≤ f.index := by
  induction s, h, index, statements using pass_induction with
  | nil s h index => cases hf
  | blank s h index statement rest hb ih =>
      rw [runFrom_blank hb] at hf
      exact Nat.le_of_succ_le (ih hf)
  | error s h index statement rest e s' h' hb he ih =>
      rw [runFrom_error hb he] at hf
      rcases List.mem_cons.mp hf with rfl | hf
      · exact Nat.le_refl index
      · exact Nat.le_of_succ_le (ih hf)
  | ok s h index statement rest x s' h' hb he ih =>
      rw [runFrom_ok hb he] at hf
      exact Nat.le_of_succ_le (ih hf)

theorem find?_of_cleared {r : Ruleset W} {k : String} {symbol : Symbol W}
    (h : r.cleared.table.find? k = some symbol) : r.session.table.find? k = some symbol := by
  have hfold : ∀ (names : List String) (s : Session W),
      (names.foldl (fun s name => (s.removeVariable name).2) s).table.find? k = some symbol →
        s.table.find? k = some symbol := by
    intro names
    induction names with
    | nil => exact fun s hs => hs
    | cons name rest ih => exact fun s hs => Table.find?_of_remove (ih _ hs)
  unfold cleared at h
  split at h
  · exact hfold r.declared r.session h
  · exact h

theorem quiet_evaluate {s : Session W} (hs : s.table.Quiet) (statement : String) (h : Host W) :
    ((s.evaluate statement).run h).1.2.table.Quiet := by
  refine hs.mono fun k a ha => ?_
  rw [← Session.find?_clearVariables_accessor, Session.clearVariables_evaluate,
    Session.find?_clearVariables_accessor] at ha
  exact ha

/-- The statements that succeed do so again without the others, from a state that matches.
The invariant is that the two runs are in the same session and in states that match,
whatever their positions in the list. -/
theorem runFrom_successes {s : Session W} (hs : s.table.Quiet) {h k : Host W}
    (hk : k.Matches h) (index position : Nat) (statements : List String) :
    let first := (runFrom s index statements).run h
    let successes := first.1.1.successes index statements
    let second := (runFrom s position successes).run k
    first.1.1.applied = successes.length ∧
    second.1 = (⟨successes.length, []⟩, first.1.2) ∧ second.2.Matches first.2 := by
  dsimp only
  induction s, h, index, statements using pass_induction generalizing k position with
  | nil s h index => exact ⟨rfl, rfl, hk⟩
  | blank s h index statement rest hb ih =>
      rw [runFrom_blank hb, Report.successes_blank hb]
      exact ih hs hk position
  | error s h index statement rest e s' h' hb he ih =>
      obtain ⟨rfl, hmatches⟩ := Session.matches_of_error hs he
      rw [runFrom_error hb he]
      dsimp only
      rw [Report.successes_error]
      exact ih hs (hk.trans (hmatches.symm.trans (Host.matches_record rfl).symm)) position
  | ok s h index statement rest x s' h' hb he ih =>
      have hquiet := quiet_evaluate hs statement h
      have hparallel := (s.blind_evaluate statement).matches hk
      rw [he] at hquiet hparallel
      have he' : (s.evaluate statement).run k =
          ((.ok x, s'), ((s.evaluate statement).run k).2) := Prod.ext hparallel.1 rfl
      have hnext := ih hquiet hparallel.2 (position + 1)
      have hlater : ∀ f ∈ ((runFrom s' (index + 1) rest).run h').1.1.failures,
          index < f.index := fun f hf => le_index_of_mem_failures hf
      rw [runFrom_ok hb he]
      generalize (runFrom s' (index + 1) rest).run h' = after at hnext hlater
      obtain ⟨⟨⟨applied, failures⟩, t⟩, j⟩ := after
      dsimp only at hnext hlater ⊢
      rw [Report.successes_ok hb hlater rest applied, runFrom_ok hb he']
      dsimp only
      rw [hnext.2.1]
      exact ⟨congrArg (· + 1) hnext.1, rfl, hnext.2.2⟩

/-- The second pass counts all its statements as successes, as many as the first one, calls
the same setters, and leaves the same session, world and list of declared variables. -/
theorem apply_successes {r : Ruleset W} (hquiet : r.session.table.Quiet) (h : Host W) :
    let first := r.apply.run h
    let successes := first.1.1.successes 0 r.constraints
    let second := ({ r with constraints := successes }.apply).run h
    second.1.1 = ⟨successes.length, []⟩ ∧ first.1.1.applied = successes.length ∧
    setterCalls second.2.events = setterCalls first.2.events ∧
    second.1.2.session = first.1.2.session ∧ second.2.world = first.2.world ∧
    second.1.2.declared = first.1.2.declared := by
  have hcleared : r.cleared.table.Quiet := hquiet.mono fun k a ha => find?_of_cleared ha
  have hruns := runFrom_successes hcleared (.refl h) 0 0 r.constraints
  have hsame (statements : List String) :
      ({ r with constraints := statements } : Ruleset W).cleared = r.cleared := rfl
  dsimp only at hruns ⊢
  rw [run_apply, run_apply, hsame]
  dsimp only
  generalize (runFrom r.cleared 0 r.constraints).run h = first at hruns ⊢
  generalize first.1.1.successes 0 r.constraints = successes at hruns ⊢
  generalize (runFrom r.cleared 0 successes).run h = second at hruns ⊢
  obtain ⟨⟨report, session⟩, j⟩ := second
  obtain ⟨happlied, hout, hmatches⟩ := hruns
  cases hout
  have hpassed (k : Host W) (a b c : Nat) : (k.record [.passed a b c]).Matches k :=
    Host.matches_record rfl
  refine ⟨rfl, happlied, ?_, rfl, hmatches.world, rfl⟩
  exact ((hpassed j _ _ _).trans (hmatches.trans (hpassed first.2 _ _ _).symm)).setterCalls

/-- A value outside that counts what is written to it, and a list in which two statements
fail: one reads a name that is not known, the other has nothing on its right side. -/
theorem apply_successes_counting_writes :
    let a : Accessor Nat := ⟨"x", fun w => (2, w), fun _ w => w + 1⟩
    let h : Host Nat := ⟨0, []⟩
    let session := (((Session.create {}).answer (.register "x" a)).run h).1
    let r : Ruleset Nat :=
      ⟨["x = 3", "x = y", "", "var z = 2 * x", "x =", "x = z"], session, {}, []⟩
    let again := { r with constraints := ["x = 3", "var z = 2 * x", "x = z"] }
    r.session.table.Quiet ∧ "x" ∈ r.session.table.accessorNames ∧
      ((r.apply.run h).1.1.failures.map Failure.index = [1, 4]) ∧
      (again.apply.run h).1.1 = ⟨3, []⟩ ∧ (r.apply.run h).1.1.applied = 3 ∧
      setterCalls (again.apply.run h).2.events = setterCalls (r.apply.run h).2.events ∧
      (again.apply.run h).1.2.session = (r.apply.run h).1.2.session ∧
      (again.apply.run h).2.world = (r.apply.run h).2.world ∧
      (again.apply.run h).1.2.declared = (r.apply.run h).1.2.declared := by
  intro a h session r again
  have hquiet : r.session.table.Quiet := by
    intro k b w hb
    change (((Session.create {}).answer (.register "x" a)).run h).1.table.find? k = _ at hb
    rcases Session.accessor_of_register hb with rfl | hinitial
    · rfl
    · exact absurd hinitial Table.find?_initial_ne_accessor
  have hx : "x" ∈ r.session.table.accessorNames := by decide +kernel
  have hfailures : (r.apply.run h).1.1.failures.map Failure.index = [1, 4] := by decide +kernel
  have hsuccesses : (r.apply.run h).1.1.successes 0 r.constraints = again.constraints := by
    decide +kernel
  have hagain := apply_successes hquiet h
  dsimp only at hagain
  rw [hsuccesses, show ({ r with constraints := again.constraints } : Ruleset Nat) = again from
    rfl] at hagain
  exact ⟨hquiet, hx, hfailures, hagain⟩

end Ruleset
end RuleSheet
