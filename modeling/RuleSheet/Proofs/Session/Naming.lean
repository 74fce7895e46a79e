import RuleSheet.Proofs.Session.Spelling

/-!
# Which names can be given

A name for a new symbol is checked by scanning it: it has to be read back as one name token,
which is the name itself. That comes to a grammar. A name begins with a letter or an
underscore, goes on with letters, underscores, indices and members to its end, and has small
letters only. Digits stand in it only as an index, since outside of one they would complete
the name of a function or begin a numeral.

Registrations and declarations check a name in the same way, and in the same order: whether
it is reserved, whether it is in the grammar, whether it is free. A declaration does so before
its right side is evaluated.
-/
namespace RuleSheet
open Text
variable {W : Type}

namespace Lexeme

/-- What a name is made of, from any of its parts to its end. -/
inductive Parts : List Char → Prop
  | nil : Parts []
  | letter {c : Char} {rest : List Char} (hc : isNameChar c = true) (hrest : Parts rest) :
      Parts (c :: rest)
  | index {digits rest : List Char} (hne : digits ≠ []) (hdigits : ∀ c ∈ digits, c.isDigit = true)
      (hrest : Parts rest) : Parts ('[' :: digits ++ ']' :: rest)
  | member {rest : List Char} (hstarts : startsName rest = true) (hrest : Parts rest) :
      Parts ('.' :: rest)

/-- The scanner takes all of a text for the body of a name if and only if it is made of parts. -/
theorem nameBody_eq_self_iff {cs : List Char} : nameBody cs = (cs, []) ↔ Parts cs := by
  constructor
  · intro h
    fun_induction nameBody cs with
    | case1 => exact .nil
    | case2 c rest hc body after he ih =>
        obtain ⟨hbody, rfl⟩ := Prod.mk.inj h
        obtain rfl := (List.cons.inj hbody).2
        rw [Bool.or_eq_true, Bool.and_eq_true, beq_iff_eq] at hc
        rcases hc with hc | ⟨rfl, hstarts⟩
        · exact .letter hc (ih he)
        · exact .member hstarts (ih he)
    | case3 c rest _ segment tail hi _ body after he ih =>
        obtain ⟨digits, hne, hdigits, rfl, hcs⟩ := index?_eq_some_iff.mp hi
        obtain ⟨hbody, rfl⟩ := Prod.mk.inj h
        rw [hcs] at hbody ⊢
        obtain rfl := List.append_cancel_left hbody
        rw [List.append_assoc]
        exact .index hne hdigits (ih he)
    | case4 => cases (Prod.mk.inj h).1
  · intro h
    induction h with
    | nil => rw [nameBody]
    | letter hc _ ih => rw [nameBody, if_pos (by simp [hc]), ih]
    | @index digits rest hne hdigits _ ih =>
        have hi : index? ('[' :: digits ++ ']' :: rest) = some ('[' :: digits ++ [']'], rest) :=
          index?_eq_some_iff.mpr ⟨digits, hne, hdigits, rfl, by simp⟩
        rw [nameBody_index hi, ih]
        simp
    | member hstarts _ ih => rw [nameBody, if_pos (by simp [hstarts]), ih]

end Lexeme

namespace Token

/-- The grammar of the names that can be given. -/
structure WellNamed (n : String) : Prop where
  starts : Lexeme.startsName n.toList = true
  parts : Lexeme.Parts n.toList
  small : ∀ c ∈ n.toList, lowerChar c = [c]

theorem isIdentifier_iff_wellNamed {n : String} (hn : Builtin.isName n = false) :
    isIdentifier n = true ↔ WellNamed n := by
  rw [isIdentifier_iff]
  constructor
  · exact fun h => ⟨h.starts, Lexeme.nameBody_eq_self_iff.mp h.whole, h.settled⟩
  · exact fun h => ⟨h.starts, Lexeme.nameBody_eq_self_iff.mpr h.parts, h.small, hn⟩

instance : DecidablePred WellNamed := fun n =>
  decidable_of_iff ((Lexeme.startsName n.toList && Lexeme.nameBody n.toList == (n.toList, []) &&
      n.toList.all fun c => lowerChar c == [c]) = true) <| by
    simp only [Bool.and_eq_true, beq_iff_eq, List.all_eq_true, and_assoc]
    constructor
    · exact fun h => ⟨h.1, Lexeme.nameBody_eq_self_iff.mp h.2.1, h.2.2⟩
    · exact fun h => ⟨h.starts, Lexeme.nameBody_eq_self_iff.mpr h.parts, h.small⟩

end Token

namespace Session

/-- What is said of a name for a new symbol. -/
def verdict (s : Session W) (n : String) : Except StatementError Unit :=
  if Builtin.isName n = true ∨ n = s.settings.declarationKeyword then .error (.reservedName n)
  else if ¬Token.WellNamed n then .error (.invalidName n)
  else if (s.table.find? n).isSome then .error (.duplicateName n)
  else .ok ()

theorem checkNewName_eq_verdict (s : Session W) (n : String) : s.checkNewName n = s.verdict n := by
  unfold checkNewName verdict
  by_cases hreserved : Builtin.isName n = true ∨ n = s.settings.declarationKeyword
  · rw [if_pos hreserved, if_pos (by simpa using hreserved)]
  rw [if_neg hreserved, if_neg (by simpa using hreserved)]
  have hfunction : Builtin.isName n = false := by simpa using (not_or.mp hreserved).1
  have hidentifier := Token.isIdentifier_iff_wellNamed hfunction
  by_cases hname : Token.WellNamed n
  · have hid := hidentifier.mpr hname
    rw [if_neg (not_not.mpr hname), if_neg (by simp [hid]), Table.contains, Table.get,
      (Token.isIdentifier_iff.mp hid).key]
  · rw [if_pos hname, if_pos (by simpa using fun hid => hname (hidentifier.mp hid))]

theorem answer_register (s : Session W) (name : String) (a : Accessor W) (h : Host W) :
    ((s.register name a).run h).1.1 = s.verdict (folded name) := by
  rw [← checkNewName_eq_verdict]
  cases hc : s.checkNewName (folded name) with
  | error fault => rw [run_register_error hc]
  | ok _ =>
      obtain ⟨t, _, hrun⟩ := run_register_ok hc a h
      rw [hrun]

/-- A declaration is refused for what is said of the name. If the name passes, the declaration is
answered by the value of the right side. -/
theorem answer_declaration {s : Session W} {statement new : String} {left right : List Char}
    (hsides : splitEquals statement.toList = some (left, right)) (hright : '=' ∉ right)
    (hnew : s.declaredName? (fold left) = some new) (h : Host W) :
    (∀ fault, s.verdict new = .error fault →
        (s.evaluate statement).run h = ((.error fault, s), h)) ∧
      (s.verdict new = .ok () → ((s.evaluate statement).run h).1.1 =
        ((s.evaluateExpression (String.ofList right)).outcome h).1) := by
  have htarget := target_of_declaredName? hnew
  rw [evaluate_sides hsides hright, ← checkNewName_eq_verdict]
  constructor
  · intro fault hc
    rw [hc] at htarget
    rw [assign, htarget]
    rfl
  · intro hc
    rw [hc] at htarget
    rw [evaluateExpression, String.toList_ofList]
    rcases hv : (Expression.value s.table s.settings.autoBalance right).outcome h with ⟨answer, j⟩
    rw [run_assign htarget hv]
    cases answer with
    | error fault => rfl
    | ok x => exact congrArg (·.1.1) (run_store_declaration (find?_of_checkNewName hc) x j)

/-- Registrations and declarations check a name alike: it is refused if it is reserved, if it
is not in the grammar, or if it is taken, in this order, and else it is accepted. Declarations
do so before the right side is evaluated, so that one that is refused leaves the host as it was.
The keyword and the name may be spelled in any way, and any blank may stand between them; an
empty keyword or an empty name makes no declaration. -/
theorem new_names_checked (s : Session W) :
    (∀ name a h, ((s.register name a).run h).1.1 = s.verdict (folded name)) ∧
    ∀ keyword gap name e h, folded keyword = s.settings.declarationKeyword →
      s.settings.declarationKeyword ≠ "" → isBlank gap = true → folded name ≠ "" →
      '=' ∉ keyword.toList → '=' ∉ name.toList → '=' ∉ e.toList →
      (∀ fault, s.verdict (folded name) = .error fault →
          (s.evaluate (keyword ++ gap.toString ++ name ++ "=" ++ e)).run h =
            ((.error fault, s), h)) ∧
        (s.verdict (folded name) = .ok () →
          ((s.evaluate (keyword ++ gap.toString ++ name ++ "=" ++ e)).run h).1.1 =
            ((s.evaluateExpression e).outcome h).1) := by
  refine ⟨s.answer_register, fun keyword gap name e h hkeyword hword hgap hname hk hn he => ?_⟩
  have hsides : splitEquals (keyword ++ gap.toString ++ name ++ "=" ++ e).toList =
      some (keyword.toList ++ gap :: name.toList, e.toList) := by
    refine splitEquals_eq_some_iff.mpr ⟨by simp [String.toList_append], ?_⟩
    have hequals : '=' ≠ gap := by
      rintro rfl
      exact absurd hgap (by decide)
    simp [hk, hn, hequals]
  have hfold : fold keyword.toList = s.settings.declarationKeyword.toList := by
    rw [← hkeyword, toList_folded]
  have hnew : s.declaredName? (fold (keyword.toList ++ gap :: name.toList)) =
      some (folded name) := by
    rw [declaredName?_spelled hfold hgap, if_neg]
    · rfl
    · rintro (hempty | hblank)
      · exact hword hempty
      · exact hname (congrArg String.ofList hblank)
  have hanswer := answer_declaration hsides he hnew h
  rwa [String.ofList_toList] at hanswer

/-- An index and a member are parts of a name. Neither the keyword nor a name that goes on with
a digit can be declared, whether the right side has a value or not. -/
theorem new_names_checked_let :
    let s : Session Unit := create ⟨" LET ", true⟩
    let h : Host Unit := ⟨(), []⟩
    (∀ a, ((s.register " Element[0].Left " a).run h).1.1 = .ok ()) ∧
    (s.evaluate ("Let" ++ '\t'.toString ++ " LET " ++ "=" ++ " 1")).run h =
      ((.error (.reservedName "let"), s), h) ∧
    (s.evaluate ("Let" ++ ' '.toString ++ "X2 " ++ "=" ++ " y")).run h =
      ((.error (.invalidName "x2"), s), h) ∧
    ((s.evaluate ("Let" ++ ' '.toString ++ "X " ++ "=" ++ " y")).run h).1.1 =
      ((s.evaluateExpression " y").outcome h).1 := by
  intro s h
  have hchecked := new_names_checked s
  have hkeyword : folded "Let" = s.settings.declarationKeyword := by decide +kernel
  have hword : s.settings.declarationKeyword ≠ "" := by decide +kernel
  have hindexed : s.verdict (folded " Element[0].Left ") = .ok () := by decide +kernel
  have hreserved : s.verdict (folded " LET ") = .error (.reservedName "let") := by decide +kernel
  have hdigit : s.verdict (folded "X2 ") = .error (.invalidName "x2") := by decide +kernel
  have hfree : s.verdict (folded "X ") = .ok () := by decide +kernel
  refine ⟨fun a => ?_, ?_, ?_, ?_⟩
  · rw [hchecked.1, hindexed]
  · exact (hchecked.2 "Let" '\t' " LET " " 1" h hkeyword hword (by decide) (by decide +kernel)
      (by decide) (by decide) (by decide)).1 _ hreserved
  · exact (hchecked.2 "Let" ' ' "X2 " " y" h hkeyword hword (by decide) (by decide +kernel)
      (by decide) (by decide) (by decide)).1 _ hdigit
  · exact (hchecked.2 "Let" ' ' "X " " y" h hkeyword hword (by decide) (by decide +kernel)
      (by decide) (by decide) (by decide)).2 hfree

end Session
end RuleSheet
