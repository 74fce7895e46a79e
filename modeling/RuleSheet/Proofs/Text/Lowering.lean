import RuleSheet.Proofs.Text.Trim

/-!
# Lowering as a whole

Lowering as a whole differs from lowering each character by itself in one place: a
capital sigma that ends a word. A blank ends a word and is its own small form, so the
parts of a text between blanks are lowered apart, and a trimmed text stays trimmed.
-/
namespace RuleSheet.Text

theorem meetsCased_cons (c : Char) (rest : List Char) :
    meetsCased (c :: rest) = if isCaseIgnorable c then meetsCased rest else isCased c := by
  unfold meetsCased
  rw [List.dropWhile_cons]
  by_cases h : isCaseIgnorable c = true
  · rw [if_pos h, if_pos h]
  · rw [if_neg h, if_neg h]

theorem lowerAfter_cons {before rest : List Char} {c : Char} (h : c ≠ capitalSigma) :
    lowerAfter before (c :: rest) = lowerChar c ++ lowerAfter (c :: before) rest := by
  rw [lowerAfter, if_neg h]

@[simp] theorem lowerChar_capitalSigma : lowerChar capitalSigma = [smallSigma] := by decide +kernel

/-- A capital sigma after the characters `before` ends a word: a letter with case is met
before it, and none after it. -/
def SigmaEndsWord (before cs : List Char) : Prop :=
  ∃ word rest, cs = word ++ capitalSigma :: rest ∧
    meetsCased (word.reverse ++ before) = true ∧ meetsCased rest = false

theorem sigmaEndsWord_cons {before cs : List Char} {c : Char} :
    SigmaEndsWord before (c :: cs) ↔
      (c = capitalSigma ∧ meetsCased before = true ∧ meetsCased cs = false) ∨
        SigmaEndsWord (c :: before) cs := by
  unfold SigmaEndsWord
  constructor
  · rintro ⟨word, rest, hcs, hword, hrest⟩
    cases word with
    | nil =>
        cases hcs
        exact .inl ⟨rfl, hword, hrest⟩
    | cons d more =>
        cases hcs
        exact .inr ⟨more, rest, rfl, by simpa using hword, hrest⟩
  · rintro (⟨rfl, hbefore, hcs⟩ | ⟨word, rest, rfl, hword, hrest⟩)
    · exact ⟨[], cs, rfl, hbefore, hcs⟩
    · exact ⟨c :: word, rest, rfl, by simpa using hword, hrest⟩

/-- The two ways to lower differ exactly on a word that ends in a capital sigma. -/
theorem lowerAfter_eq_lowerChars_iff {before cs : List Char} :
    lowerAfter before cs = lowerChars cs ↔ ¬SigmaEndsWord before cs := by
  induction cs generalizing before with
  | nil => simp [lowerAfter, lowerChars, SigmaEndsWord]
  | cons c rest ih =>
      rw [sigmaEndsWord_cons, not_or, ← ih, lowerChars, List.flatMap_cons, ← lowerChars]
      by_cases hc : c = capitalSigma
      · subst hc
        rw [lowerAfter, if_pos rfl, lowerChar_capitalSigma, List.singleton_append,
          List.singleton_append, List.cons.injEq]
        refine and_congr_left fun _ => ?_
        have hdiffer : finalSigma ≠ smallSigma := by decide
        by_cases hword : meetsCased before = true ∧ meetsCased rest = false
        · simp [hword, hdiffer]
        · rw [if_neg (by simpa using hword)]
          simp [hword]
      · rw [lowerAfter_cons hc, List.append_cancel_left_eq]
        simp [hc]

theorem length_lowerAfter (before cs : List Char) :
    (lowerAfter before cs).length = (lowerChars cs).length := by
  induction cs generalizing before with
  | nil => rfl
  | cons c rest ih =>
      rw [lowerChars, List.flatMap_cons, ← lowerChars, List.length_append, ← ih (c :: before)]
      by_cases hc : c = capitalSigma
      · subst hc
        rw [lowerAfter, if_pos rfl, lowerChar_capitalSigma, List.length_append]
        rfl
      · rw [lowerAfter_cons hc, List.length_append]

theorem isCased_of_isBlank {c : Char} (h : isBlank c = true) : isCased c = false :=
  of_isBlank (p := fun c => isCased c = false) (by decide +kernel) h

theorem isCaseIgnorable_of_isBlank {c : Char} (h : isBlank c = true) :
    isCaseIgnorable c = false :=
  of_isBlank (p := fun c => isCaseIgnorable c = false) (by decide +kernel) h

theorem isSettled_of_isBlank {c : Char} (h : isBlank c = true) : IsSettled c :=
  of_isBlank (by decide +kernel) h

theorem ne_capitalSigma_of_isBlank {c : Char} (h : isBlank c = true) : c ≠ capitalSigma := by
  rintro rfl
  exact absurd h (by decide)

theorem meetsCased_append_blank {c : Char} (hc : isBlank c = true) (a b : List Char) :
    meetsCased (a ++ c :: b) = meetsCased a := by
  induction a with
  | nil =>
      rw [List.nil_append, meetsCased_cons, isCaseIgnorable_of_isBlank hc, isCased_of_isBlank hc]
      rfl
  | cons d rest ih => rw [List.cons_append, meetsCased_cons, meetsCased_cons, ih]

theorem lowerAfter_blank {c : Char} (hc : isBlank c = true) (a b cs : List Char) :
    lowerAfter (a ++ c :: b) cs = lowerAfter a cs := by
  induction cs generalizing a with
  | nil => rfl
  | cons d rest ih =>
      have hrest := ih (d :: a)
      rw [List.cons_append] at hrest
      rw [lowerAfter, lowerAfter, meetsCased_append_blank hc, hrest]

/-- What stands before a blank and what stands after it are lowered apart. -/
theorem lowerAfter_append_blank {c : Char} (hc : isBlank c = true) (before a b : List Char) :
    lowerAfter before (a ++ c :: b) = lowerAfter before a ++ c :: lower b := by
  induction a generalizing before with
  | nil =>
      have hsettled : lowerChar c = [c] := isSettled_of_isBlank hc
      have hforget := lowerAfter_blank hc [] before b
      rw [List.nil_append] at hforget
      rw [List.nil_append, lowerAfter_cons (ne_capitalSigma_of_isBlank hc), hsettled, hforget]
      rfl
  | cons d rest ih =>
      rw [List.cons_append, lowerAfter, lowerAfter, meetsCased_append_blank hc, ih,
        List.append_assoc]

theorem lower_append_blank {c : Char} (hc : isBlank c = true) (a b : List Char) :
    lower (a ++ c :: b) = lower a ++ c :: lower b :=
  lowerAfter_append_blank hc [] a b

theorem lower_blanks_append {blanks : List Char} (h : ∀ c ∈ blanks, isBlank c = true)
    (cs : List Char) : lower (blanks ++ cs) = blanks ++ lower cs := by
  induction blanks with
  | nil => rfl
  | cons c rest ih =>
      have hc := lower_append_blank (h c (.head _)) [] (rest ++ cs)
      rw [List.nil_append] at hc
      rw [List.cons_append, hc, ih fun d hd => h d (.tail _ hd)]
      rfl

theorem isBlank_of_mem_lowerChar {c d : Char} (hd : d ∈ lowerChar c) (hb : isBlank d = true) :
    isBlank c = true := by
  unfold lowerChar at hd
  split at hd
  · have hletters : ∀ d ∈ ['i', combiningDotAbove], isBlank d = false :=
      List.forall_mem_cons.mpr ⟨by decide, List.forall_mem_singleton.mpr (by decide)⟩
    rw [hletters d hd] at hb
    cases hb
  · have hmembers : ∀ e ∈ lowerShifts, ∀ n ∈ e.1.members,
        isBlank (Char.ofNat ((n : Int) + e.2).toNat) = false := by
      decide +kernel
    have hcode : lowerCode lowerShifts c.toNat = c.toNat ∨
        isBlank (Char.ofNat (lowerCode lowerShifts c.toNat)) = false :=
      lowerCode_eq_or (p := fun n => isBlank (Char.ofNat n) = false)
        (fun e he n hn => hmembers e he n (Stretch.mem_members hn)) c.toNat
    obtain rfl := List.mem_singleton.mp hd
    rcases hcode with hcode | hcode
    · rwa [hcode, Char.ofNat_toNat] at hb
    · rw [hcode] at hb
      cases hb

theorem lowerChar_ne_nil (c : Char) : lowerChar c ≠ [] := by
  unfold lowerChar
  split <;> exact List.cons_ne_nil _ _

/-- Each character becomes at least one. What it becomes is settled, and is blank only if
the character is. -/
theorem exists_lowerAfter_cons (before : List Char) (c : Char) (rest : List Char) :
    ∃ block, lowerAfter before (c :: rest) = block ++ lowerAfter (c :: before) rest ∧
      block ≠ [] ∧ ∀ d ∈ block, IsSettled d ∧ (isBlank d = true → isBlank c = true) := by
  by_cases hs : c = capitalSigma
  · rw [lowerAfter, if_pos hs]
    refine ⟨_, rfl, List.cons_ne_nil _ _, ?_⟩
    have hsigmas : ∀ d ∈ [finalSigma, smallSigma], IsSettled d ∧ isBlank d = false :=
      List.forall_mem_cons.mpr
        ⟨by decide +kernel, List.forall_mem_singleton.mpr (by decide +kernel)⟩
    intro d hd
    obtain ⟨hsettled, hvisible⟩ := hsigmas d (by
      rw [List.mem_singleton.mp hd]
      split
      · exact .head _
      · exact .tail _ (.head _))
    exact ⟨hsettled, fun hb => absurd hb (by simp [hvisible])⟩
  · exact ⟨lowerChar c, lowerAfter_cons hs, lowerChar_ne_nil c,
      fun d hd => ⟨isSettled_of_mem_lowerChar hd, isBlank_of_mem_lowerChar hd⟩⟩

theorem isSettled_of_mem_lowerAfter {before cs : List Char} :
    ∀ d ∈ lowerAfter before cs, IsSettled d := by
  induction cs generalizing before with
  | nil => simp [lowerAfter]
  | cons c rest ih =>
      obtain ⟨block, hblock, _, hall⟩ := exists_lowerAfter_cons before c rest
      intro d hd
      rw [hblock, List.mem_append] at hd
      exact hd.elim (fun h => (hall d h).1) (ih d)

@[simp] theorem lower_lower (cs : List Char) : lower (lower cs) = lower cs :=
  lower_eq_self isSettled_of_mem_lowerAfter

theorem isBlank_of_block {block : List Char} {c : Char} (hc : isBlank c = false)
    (hblock : ∀ d ∈ block, IsSettled d ∧ (isBlank d = true → isBlank c = true)) :
    ∀ d ∈ block, isBlank d = false := by
  intro d hd
  rw [Bool.eq_false_iff]
  intro hb
  rw [(hblock d hd).2 hb] at hc
  cases hc

theorem isBlank_getLast?_lowerAfter {before cs : List Char}
    (h : ∀ c ∈ cs.getLast?, isBlank c = false) :
    ∀ d ∈ (lowerAfter before cs).getLast?, isBlank d = false := by
  induction cs generalizing before with
  | nil => simp [lowerAfter]
  | cons c rest ih =>
      obtain ⟨block, hblock, _, hall⟩ := exists_lowerAfter_cons before c rest
      intro d hd
      rw [hblock] at hd
      cases rest with
      | nil =>
          rw [lowerAfter, List.append_nil] at hd
          exact isBlank_of_block (h c rfl) hall d (List.mem_of_getLast? hd)
      | cons e more =>
          obtain ⟨next, hnext, hne, _⟩ := exists_lowerAfter_cons (c :: before) e more
          rw [List.getLast?_append_of_ne_nil _ (by simp [hnext, hne])] at hd
          exact ih (fun x hx => h x (by simpa using hx)) d hd

/-- Lowering leaves no blank at either end if there was none. -/
theorem Trimmed.lower {cs : List Char} (h : Trimmed cs) : Trimmed (lower cs) where
  first := by
    cases cs with
    | nil => simp [Text.lower, lowerAfter]
    | cons c rest =>
        obtain ⟨block, hblock, hne, hall⟩ := exists_lowerAfter_cons [] c rest
        intro d hd
        rw [Text.lower, hblock, List.head?_append_of_ne_nil _ hne] at hd
        exact isBlank_of_block (h.first c rfl) hall d (List.mem_of_mem_head? hd)
  last := isBlank_getLast?_lowerAfter h.last

end RuleSheet.Text
