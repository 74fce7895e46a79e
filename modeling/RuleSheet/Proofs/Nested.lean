import Mathlib.Data.List.Basic

/-!
# Signs that open and signs that close

Two signs of a list open and close, and all others do neither. A list closes `depth`
groups that were opened before it when it closes that many more than it opens, and no
prefix of it closes a group that is not there. A list that is nested closes all that it
opens and nothing else. The signs are those of choices in a text and the parentheses of
a list of tokens.
-/
namespace RuleSheet
variable {α : Type} [DecidableEq α]

/-- The list closes its own groups and `depth` groups before it. -/
structure Closes (opening closing : α) (depth : Nat) (l : List α) : Prop where
  prefixes : ∀ p, p <+: l → p.count closing ≤ depth + p.count opening
  total : l.count closing = depth + l.count opening

/-- What is opened is closed later, and what is closed was opened before. -/
abbrev Nested (opening closing : α) (l : List α) : Prop :=
  Closes opening closing 0 l

namespace Closes
variable {opening closing : α} {depth : Nat} {l : List α}

@[simp] theorem nil_iff : Closes opening closing depth [] ↔ depth = 0 := by
  constructor
  · intro h
    exact h.total.symm
  · rintro rfl
    exact ⟨fun p hp => by rw [List.prefix_nil.mp hp]; exact Nat.le_refl _, rfl⟩

theorem cons_iff (hne : opening ≠ closing) {x : α} :
    Closes opening closing depth (x :: l) ↔ ¬(x = closing ∧ depth = 0) ∧
      Closes opening closing
        (if x = opening then depth + 1 else if x = closing then depth - 1 else depth) l := by
  have prefixes_cons : (∀ p, p <+: x :: l → p.count closing ≤ depth + p.count opening) ↔
      ∀ p, p <+: l → (x :: p).count closing ≤ depth + (x :: p).count opening := by
    constructor
    · exact fun h p hp => h (x :: p) (List.cons_prefix_cons.mpr ⟨rfl, hp⟩)
    · intro h p hp
      rcases List.prefix_cons_iff.mp hp with rfl | ⟨q, rfl, hq⟩
      · exact Nat.zero_le _
      · exact h q hq
  have count_cons (a : α) (m : List α) : (x :: m).count a = m.count a + if x = a then 1 else 0 := by
    simp [List.count_cons]
  constructor
  · intro h
    have hprefixes := prefixes_cons.mp h.prefixes
    have hfirst := hprefixes [] List.nil_prefix
    have htotal := h.total
    simp only [count_cons, List.count_nil] at hprefixes hfirst htotal
    refine ⟨?_, fun p hp => ?_, ?_⟩
    · grind
    · have := hprefixes p hp
      grind
    · grind
  · rintro ⟨hfirst, h⟩
    have htotal := h.total
    refine ⟨prefixes_cons.mpr fun p hp => ?_, ?_⟩
    · have := h.prefixes p hp
      rw [count_cons, count_cons]
      grind
    · rw [count_cons, count_cons]
      grind

theorem of_not_mem (ho : opening ∉ l) (hc : closing ∉ l) : Nested opening closing l where
  prefixes p hp := by
    rw [List.count_eq_zero_of_not_mem fun h => hc (hp.subset h)]
    exact Nat.zero_le _
  total := by
    rw [List.count_eq_zero_of_not_mem ho, List.count_eq_zero_of_not_mem hc]

theorem append {more : Nat} {m : List α} (hl : Closes opening closing depth l)
    (hm : Closes opening closing more m) : Closes opening closing (depth + more) (l ++ m) where
  prefixes p hp := by
    rcases List.prefix_or_prefix_of_prefix hp (List.prefix_append l m) with hpl | ⟨q, rfl⟩
    · have hle := hl.prefixes p hpl
      omega
    · have hle := hm.prefixes q ((List.prefix_append_right_inj l).mp hp)
      have htotal := hl.total
      rw [List.count_append, List.count_append]
      omega
  total := by
    have hl := hl.total
    have hm := hm.total
    rw [List.count_append, List.count_append]
    omega

theorem enclosed (hne : opening ≠ closing) (h : Nested opening closing l) :
    Nested opening closing (opening :: (l ++ [closing])) := by
  have hclosing : Closes opening closing 1 [closing] := by
    rw [cons_iff hne, if_neg hne.symm, if_pos rfl, nil_iff]
    simp
  have hopened := h.append hclosing
  exact (cons_iff hne).mpr ⟨fun hsign => hne hsign.1, by rwa [if_pos rfl]⟩

theorem append_of_not_mem_iff (hne : opening ≠ closing) {m : List α} (ho : opening ∉ l)
    (hc : closing ∉ l) :
    Closes opening closing depth (l ++ m) ↔ Closes opening closing depth m := by
  induction l with
  | nil => rfl
  | cons x rest ih =>
      rw [List.mem_cons, not_or] at ho hc
      rw [List.cons_append, cons_iff hne, if_neg (Ne.symm ho.1), if_neg (Ne.symm hc.1),
        ih ho.2 hc.2]
      exact and_iff_right fun h => hc.1 h.1.symm

theorem replicate_opening (hne : opening ≠ closing) (count : Nat) :
    Closes opening closing depth (List.replicate count opening ++ l) ↔
      Closes opening closing (depth + count) l := by
  induction count generalizing depth with
  | zero => rfl
  | succ count ih =>
      rw [List.replicate_succ, List.cons_append, cons_iff hne, if_pos rfl, ih, Nat.add_assoc,
        Nat.add_comm 1]
      exact and_iff_right fun h => hne h.1

/-- Missing signs at the end, once no prefix closes what is not there. -/
theorem append_replicate_iff (hne : opening ≠ closing) (count : Nat) :
    Closes opening closing depth (l ++ List.replicate count closing) ↔
      (∀ p, p <+: l → p.count closing ≤ depth + p.count opening) ∧
        l.count closing + count = depth + l.count opening := by
  have hclosing (n : Nat) : (List.replicate n closing).count opening = 0 :=
    List.count_eq_zero_of_not_mem fun h => hne (List.eq_of_mem_replicate h)
  constructor
  · intro h
    have htotal := h.total
    rw [List.count_append, List.count_append, List.count_replicate_self, hclosing] at htotal
    exact ⟨fun p hp => h.prefixes p (hp.trans (List.prefix_append l _)), htotal⟩
  · intro h
    have htotal := h.2
    refine ⟨fun p hp => ?_, ?_⟩
    · rcases List.prefix_or_prefix_of_prefix hp (List.prefix_append l _) with hpl | ⟨q, rfl⟩
      · exact h.1 p hpl
      · have hq := (List.prefix_append_right_inj l).mp hp
        have hcount := hq.sublist.count_le closing
        rw [List.count_replicate_self] at hcount
        rw [List.count_append, List.count_append]
        omega
    · rw [List.count_append, List.count_append, List.count_replicate_self, hclosing]
      exact htotal

end Closes
end RuleSheet
