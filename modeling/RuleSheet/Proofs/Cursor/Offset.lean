import RuleSheet.Proofs.Cursor.Lexeme
import RuleSheet.Proofs.Text.Cut

/-!
# Byte offsets

A text may also be cut at an offset into the bytes of its UTF-8 form. Such a cut goes wrong
where the offset lies within a character or beyond the end, and only there. The offset of a
sign is one at which a text can be cut, and so is the offset after it, since the signs that
are looked for take one byte.
-/
namespace RuleSheet.Cursor
open Text

/-- The number of bytes of a text. -/
def bytes (cs : List Char) : Nat :=
  (String.ofList cs).utf8ByteSize

/-- The characters before and after the byte offset `n`. -/
def cutAt : List Char → Nat → Except Fault (List Char × List Char)
  | cs, 0 => .ok ([], cs)
  | [], _ + 1 => .error .insideCharacter
  | c :: rest, n + 1 =>
      if c.utf8Size ≤ n + 1 then do
        let (before, after) ← cutAt rest (n + 1 - c.utf8Size)
        return (c :: before, after)
      else .error .insideCharacter

def sliceTo (cs : List Char) (n : Nat) : Except Fault (List Char) := do
  return (← cutAt cs n).1

def sliceFrom (cs : List Char) (n : Nat) : Except Fault (List Char) := do
  return (← cutAt cs n).2

/-- The byte offset of the first `sign`. -/
def find? (sign : Char) : List Char → Option Nat
  | [] => none
  | c :: rest => if c = sign then some 0 else (find? sign rest).map (c.utf8Size + ·)

@[simp] theorem bytes_nil : bytes [] = 0 := rfl

@[simp] theorem bytes_cons (c : Char) (rest : List Char) :
    bytes (c :: rest) = c.utf8Size + bytes rest := by
  rw [bytes, String.ofList_cons, String.utf8ByteSize_append, String.utf8ByteSize_singleton]
  rfl

@[simp] theorem bytes_append (before after : List Char) :
    bytes (before ++ after) = bytes before + bytes after := by
  rw [bytes, String.ofList_append, String.utf8ByteSize_append]
  rfl

@[simp] theorem cutAt_zero (cs : List Char) : cutAt cs 0 = .ok ([], cs) := by
  cases cs with
  | nil => rfl
  | cons c rest => rfl

theorem cutAt_cons (c : Char) (rest : List Char) (n : Nat) :
    cutAt (c :: rest) (c.utf8Size + n) =
      (cutAt rest n).map fun parts => (c :: parts.1, parts.2) := by
  have hpos := c.utf8Size_pos
  obtain ⟨m, hm⟩ : ∃ m, c.utf8Size + n = m + 1 := ⟨c.utf8Size + n - 1, by omega⟩
  rw [hm, cutAt, if_pos (by omega), show m + 1 - c.utf8Size = n by omega]
  cases cutAt rest n with
  | ok parts => rfl
  | error f => rfl

/-- A text is cut exactly where a number of its characters end. -/
theorem cutAt_eq_ok_iff {cs before after : List Char} {n : Nat} :
    cutAt cs n = .ok (before, after) ↔ cs = before ++ after ∧ n = bytes before := by
  constructor
  · intro h
    fun_induction cutAt cs n generalizing before with
    | case1 cs =>
        cases h
        exact ⟨rfl, rfl⟩
    | case2 n => cases h
    | case3 c rest n hle ih =>
        cases hcut : cutAt rest (n + 1 - c.utf8Size) with
        | error f =>
            rw [hcut] at h
            cases h
        | ok parts =>
            rw [hcut] at h
            cases h
            obtain ⟨hrest, hn⟩ := ih hcut
            rw [bytes_cons, ← hn, hrest]
            exact ⟨rfl, (Nat.add_sub_cancel' hle).symm⟩
    | case4 c rest n hle => cases h
  · rintro ⟨rfl, rfl⟩
    induction before with
    | nil => exact cutAt_zero after
    | cons c rest ih =>
        rw [List.cons_append, bytes_cons, cutAt_cons, ih]
        rfl

/-- The offsets at which a text can be cut are the valid positions of its UTF-8 form. -/
theorem exists_cutAt_iff {cs : List Char} {n : Nat} :
    (∃ parts, cutAt cs n = .ok parts) ↔ (String.Pos.Raw.mk n).IsValid (String.ofList cs) := by
  rw [String.Pos.Raw.isValid_iff_exists_append]
  constructor
  · rintro ⟨⟨before, after⟩, h⟩
    obtain ⟨rfl, rfl⟩ := cutAt_eq_ok_iff.mp h
    exact ⟨String.ofList before, String.ofList after, String.ofList_append, rfl⟩
  · rintro ⟨s, t, hst, hn⟩
    refine ⟨(s.toList, t.toList), cutAt_eq_ok_iff.mpr ⟨?_, ?_⟩⟩
    · rw [← String.toList_append, ← hst, String.toList_ofList]
    · rw [bytes, String.ofList_toList]
      exact congrArg String.Pos.Raw.byteIdx hn

variable {cs before after : List Char} {sign : Char}

@[simp] theorem sliceTo_append (before after : List Char) :
    sliceTo (before ++ after) (bytes before) = .ok before := by
  rw [sliceTo, cutAt_eq_ok_iff.mpr ⟨rfl, rfl⟩]
  rfl

theorem sliceFrom_append (hsign : sign.utf8Size = 1) (before after : List Char) :
    sliceFrom (before ++ sign :: after) (bytes before + 1) = .ok after := by
  have hcut : cutAt (before ++ sign :: after) (bytes before + 1) =
      .ok (before ++ [sign], after) := by
    refine cutAt_eq_ok_iff.mpr ⟨(List.append_assoc _ [sign] _).symm, ?_⟩
    simp [hsign]
  rw [sliceFrom, hcut]
  rfl

theorem find?_eq (sign : Char) (cs : List Char) :
    find? sign cs = (cut sign cs).map fun parts => bytes parts.1 := by
  induction cs with
  | nil => rfl
  | cons c rest ih =>
      rw [find?, cut, ih]
      split
      · rfl
      · rw [Option.map_map, Option.map_map]
        congr 1
        funext parts
        exact (bytes_cons c parts.1).symm

end RuleSheet.Cursor
