/-!
# Stretches of code points

A character class is stored as an ascending list of stretches: evenly spaced
code points from a first to a last one. Alphabets that alternate capital and
small letters then take one entry with step two. The lists are sorted and the
intervals do not overlap, so a search may stop at the first stretch that begins
after the code point; nothing here checks that the tables are sorted.
-/
namespace RuleSheet.Text

/-- The code points `first`, `first + step`, and so on up to `last`. -/
structure Stretch where
  first : Nat
  last : Nat
  step : Nat
  deriving DecidableEq, Repr

namespace Stretch

/-- The code point lies on the stretch itself, not only between its ends. -/
def has (s : Stretch) (n : Nat) : Bool :=
  s.first ≤ n && n ≤ s.last && (n - s.first) % s.step == 0

/-- Membership in an ascending list of stretches. -/
def covers : List Stretch → Nat → Bool
  | [], _ => false
  | s :: rest, n =>
      if n < s.first then false
      else if n ≤ s.last then s.has n
      else covers rest n

/-- Every code point of a stretch, in ascending order. -/
def members (s : Stretch) : List Nat :=
  (List.range ((s.last - s.first) / s.step + 1)).map fun k => s.first + k * s.step

theorem has_of_covers {table : List Stretch} {n : Nat} (h : covers table n = true) :
    ∃ s ∈ table, s.has n = true := by
  induction table with
  | nil => simp [covers] at h
  | cons s rest ih =>
      simp only [covers] at h
      split at h
      · simp at h
      · split at h
        · exact ⟨s, by simp, h⟩
        · obtain ⟨t, ht, hn⟩ := ih h
          exact ⟨t, by simp [ht], hn⟩

end Stretch
end RuleSheet.Text
