import RuleSheet.Proofs.Token.Turn

/-!
# The groups that tokens leave open

The tokens of a scan are told here with the lexeme for which each of them was pushed. An opening
parenthesis that was not pushed for one of the text opens a group of the scanner, for an operand
to come. The groups that the tokens leave open lie at consecutive depths, those of the text among
those of the scanner. This is so as well where the text has closed more than it had opened, and
opens groups again from a depth below zero.

If the scanner owes a closing parenthesis to its own groups among them, and to no others, then
the end of an operand closes those that stand around it with no group of the text between. A
closing parenthesis of the text takes away the depth of the one group that it closes, if this is
a group of the scanner.
-/
namespace RuleSheet

namespace Scan
open Token

/-- A token, with the first character of the lexeme for which it was pushed. -/
structure Pushed where
  token : Token
  first : Char
  deriving DecidableEq, Repr

/-- How many more parentheses the tokens open than they close. -/
def net (pushed : List Pushed) : Int :=
  (pushed.map Pushed.token).count .opening - (pushed.map Pushed.token).count .closing

/-- An opening parenthesis that has not been closed, with the depth to which it has led. It is
inserted if it does not stand in the text. -/
structure OpenGroup where
  depth : Int
  inserted : Bool
  deriving DecidableEq, Repr

/-- The groups that the tokens leave open, the innermost first. The latest token comes first. A
closing parenthesis closes the innermost group, if there is any. -/
def openGroups : List Pushed → List OpenGroup
  | [] => []
  | ⟨.opening, c⟩ :: before => ⟨net before + 1, c != '('⟩ :: openGroups before
  | ⟨.closing, _⟩ :: before => (openGroups before).tail
  | _ :: before => openGroups before

section
variable {c : Char} {before : List Pushed}

@[simp] theorem net_opening : net (⟨.opening, c⟩ :: before) = net before + 1 := by
  simp [net]
  omega

@[simp] theorem net_closing : net (⟨.closing, c⟩ :: before) = net before - 1 := by
  simp [net]
  omega

theorem net_of_ne {t : Token} (ho : t ≠ .opening) (hc : t ≠ .closing) :
    net (⟨t, c⟩ :: before) = net before := by
  simp [net, List.count_cons_of_ne ho, List.count_cons_of_ne hc]

@[simp] theorem net_append (later before : List Pushed) :
    net (later ++ before) = net later + net before := by
  simp [net]
  omega

theorem openGroups_of_ne {t : Token} (ho : t ≠ .opening) (hc : t ≠ .closing) :
    openGroups (⟨t, c⟩ :: before) = openGroups before := by
  cases t with
  | opening => exact absurd rfl ho
  | closing => exact absurd rfl hc
  | _ => rfl

end

@[simp] theorem openGroups_closings (pushed : List Pushed) (c : Char) (count : Nat) :
    openGroups ((List.replicate count Token.closing).map (⟨·, c⟩) ++ pushed) =
      (openGroups pushed).drop count := by
  induction count with
  | zero => rfl
  | succ count ih =>
      rw [List.replicate_succ, List.map_cons, List.cons_append, openGroups, ih, List.tail_drop]

/-- The groups lie in one another, the innermost of them at this depth. -/
def Layered : Int → List OpenGroup → Prop
  | _, [] => True
  | depth, g :: outer => g.depth = depth ∧ Layered (depth - 1) outer

theorem Layered.tail {depth : Int} {groups : List OpenGroup} (h : Layered depth groups) :
    Layered (depth - 1) groups.tail := by
  cases groups with
  | nil => trivial
  | cons g outer => exact h.2

theorem layered_openGroups (pushed : List Pushed) : Layered (net pushed) (openGroups pushed) := by
  induction pushed with
  | nil => trivial
  | cons p before ih =>
      obtain ⟨t, c⟩ := p
      cases t with
      | opening =>
          rw [net_opening]
          refine ⟨rfl, ?_⟩
          rwa [Int.add_sub_cancel]
      | closing =>
          rw [net_closing]
          exact ih.tail
      | _ =>
          rw [net_of_ne (by simp) (by simp)]
          exact ih

/-- The groups of the text `1)abs-(2` lie at consecutive depths, though the depth was below zero
before them. -/
example : openGroups [⟨.number "2", '2'⟩, ⟨.opening, '('⟩, ⟨.operator .multiply, '-'⟩,
    ⟨.number "-1", '-'⟩, ⟨.opening, '-'⟩, ⟨.opening, 'a'⟩, ⟨.name "abs", 'a'⟩,
    ⟨.operator .multiply, 'a'⟩, ⟨.closing, ')'⟩, ⟨.number "1", '1'⟩] =
    [⟨2, false⟩, ⟨1, true⟩, ⟨0, true⟩] := by
  decide

section
variable {depth : Int} {groups : List OpenGroup}

theorem Layered.le (h : Layered depth groups) {g : OpenGroup} (hg : g ∈ groups) :
    g.depth ≤ depth := by
  induction groups generalizing depth with
  | nil => cases hg
  | cons first outer ih =>
      obtain ⟨hfirst, houter⟩ := h
      rcases List.mem_cons.mp hg with rfl | hg
      · exact Int.le_of_eq hfirst
      · have hle := ih houter hg
        omega

/-- Only the innermost group has the depth itself. -/
theorem Layered.mem_tail_iff (h : Layered depth groups) {g : OpenGroup} :
    g ∈ groups.tail ↔ g ∈ groups ∧ g.depth < depth := by
  cases groups with
  | nil => simp
  | cons first outer =>
      obtain ⟨hfirst, houter⟩ := h
      constructor
      · intro hg
        exact ⟨.tail _ hg, Int.lt_of_le_sub_one (houter.le hg)⟩
      · rintro ⟨hg, hlt⟩
        rcases List.mem_cons.mp hg with rfl | hg
        · omega
        · exact hg

end

/-! A group is open if nothing since has closed it. -/

/-- At no time have these tokens closed more than they had opened, so that they have left open
what was open before them. Those that came first are at the end. -/
def Keeps (later : List Pushed) : Prop :=
  ∀ q, q <:+ later → 0 ≤ net q

theorem keeps_nil : Keeps [] := by
  intro q hq
  rw [List.suffix_nil.mp hq]
  exact Int.le_refl 0

theorem keeps_cons {p : Pushed} {later : List Pushed} :
    Keeps (p :: later) ↔ 0 ≤ net (p :: later) ∧ Keeps later := by
  constructor
  · intro h
    exact ⟨h _ List.suffix_rfl, fun q hq => h q (hq.trans (List.suffix_cons p later))⟩
  · rintro ⟨hall, hlater⟩ q hq
    rcases List.suffix_cons_iff.mp hq with rfl | hq
    · exact hall
    · exact hlater q hq

/-- The group has been opened, and these tokens have been pushed since. -/
def OpenedAt (pushed : List Pushed) (g : OpenGroup) (later : List Pushed) : Prop :=
  ∃ c before, pushed = later ++ ⟨.opening, c⟩ :: before ∧ g = ⟨net before + 1, c != '('⟩

section
variable {p : Pushed} {before later : List Pushed} {g : OpenGroup}

theorem OpenedAt.net_eq {pushed : List Pushed} (h : OpenedAt pushed g later) :
    net pushed = net later + g.depth := by
  obtain ⟨c, before, rfl, rfl⟩ := h
  simp

theorem openedAt_nil :
    OpenedAt (p :: before) g [] ↔ p.token = .opening ∧ g = ⟨net before + 1, p.first != '('⟩ := by
  obtain ⟨t, c⟩ := p
  constructor
  · rintro ⟨d, outer, heq, rfl⟩
    obtain ⟨hp, rfl⟩ := List.cons.inj heq
    cases hp
    exact ⟨rfl, rfl⟩
  · rintro ⟨rfl, rfl⟩
    exact ⟨c, before, rfl, rfl⟩

theorem openedAt_cons {q : Pushed} :
    OpenedAt (p :: before) g (q :: later) ↔ p = q ∧ OpenedAt before g later := by
  constructor
  · rintro ⟨c, outer, heq, rfl⟩
    obtain ⟨hp, rfl⟩ := List.cons.inj heq
    exact ⟨hp, c, outer, rfl, rfl⟩
  · rintro ⟨rfl, c, outer, rfl, rfl⟩
    exact ⟨c, outer, rfl, rfl⟩

theorem exists_openedAt_cons :
    (∃ later, OpenedAt (p :: before) g later ∧ Keeps later) ↔
      (p.token = .opening ∧ g = ⟨net before + 1, p.first != '('⟩) ∨
        ∃ later, OpenedAt before g later ∧ Keeps later ∧ 0 ≤ net (p :: later) := by
  constructor
  · rintro ⟨later, hopened, hkeeps⟩
    cases later with
    | nil => exact .inl (openedAt_nil.mp hopened)
    | cons q later =>
        obtain ⟨rfl, hbefore⟩ := openedAt_cons.mp hopened
        exact .inr ⟨later, hbefore, (keeps_cons.mp hkeeps).symm⟩
  · rintro (hlast | ⟨later, hopened, hkeeps⟩)
    · exact ⟨[], openedAt_nil.mpr hlast, keeps_nil⟩
    · exact ⟨p :: later, openedAt_cons.mpr ⟨rfl, hopened⟩, keeps_cons.mpr hkeeps.symm⟩

end

/-- The stack of groups holds the opening parentheses that nothing since has closed. -/
theorem mem_openGroups_iff {pushed : List Pushed} {g : OpenGroup} :
    g ∈ openGroups pushed ↔ ∃ later, OpenedAt pushed g later ∧ Keeps later := by
  induction pushed with
  | nil => simp [openGroups, OpenedAt]
  | cons p before ih =>
      obtain ⟨t, c⟩ := p
      rw [exists_openedAt_cons]
      by_cases ho : t = .opening
      · subst ho
        have hkept {later : List Pushed} (h : Keeps later) :
            0 ≤ net (⟨.opening, c⟩ :: later) := by
          have hlater := h later List.suffix_rfl
          rw [net_opening]
          omega
        rw [openGroups, List.mem_cons, ih]
        simp only [true_and]
        exact or_congr_right (exists_congr fun later =>
          and_congr_right fun _ => (and_iff_left_of_imp hkept).symm)
      · simp only [ho, false_and, false_or]
        by_cases hc : t = .closing
        · -- the parenthesis closes the group at the depth of the tokens before it
          subst hc
          rw [openGroups, (layered_openGroups before).mem_tail_iff, ih, ← exists_and_right]
          refine exists_congr fun later => ?_
          rw [and_assoc]
          refine and_congr_right fun hopened => and_congr_right fun _ => ?_
          rw [hopened.net_eq, net_closing]
          omega
        · have hkept {later : List Pushed} (h : Keeps later) : 0 ≤ net (⟨t, c⟩ :: later) := by
            rw [net_of_ne ho hc]
            exact h later List.suffix_rfl
          rw [openGroups_of_ne ho hc, ih]
          exact exists_congr fun later =>
            and_congr_right fun _ => (and_iff_left_of_imp hkept).symm

/-! What the scanner does, if it owes a closing parenthesis to its own groups. -/

/-- The depths of the groups that are to be closed when their operand ends. -/
def owed (groups : List OpenGroup) : List Int :=
  (groups.filter (·.inserted)).map (·.depth)

/-- The groups whose operand ends when an operand has ended inside all of them, the innermost
first. A group that the scanner closes is the operand of the one around it, if that is a group
of the scanner too. -/
def ending (groups : List OpenGroup) : List OpenGroup :=
  groups.takeWhile (·.inserted)

/-- The state after an operand has ended inside all of the groups. -/
def endIn (groups : List OpenGroup) (tokens : List Token) (depth : Int) : Scan :=
  let count := (ending groups).length
  ⟨List.replicate count .closing ++ tokens, depth - count, owed (groups.drop count)⟩

theorem mem_owed_iff {d : Int} {groups : List OpenGroup} :
    d ∈ owed groups ↔ ∃ g ∈ groups, g.inserted = true ∧ g.depth = d := by
  simp [owed, and_assoc]

@[simp] theorem owed_append (inner outer : List OpenGroup) :
    owed (inner ++ outer) = owed inner ++ owed outer := by
  rw [owed, List.filter_append, List.map_append]
  rfl

theorem owed_cons_of_inserted {g : OpenGroup} (h : g.inserted = true) (outer : List OpenGroup) :
    owed (g :: outer) = g.depth :: owed outer := by
  simp [owed, h]

theorem owed_cons_of_written {g : OpenGroup} (h : g.inserted = false) (outer : List OpenGroup) :
    owed (g :: outer) = owed outer := by
  simp [owed, h]

namespace Layered
variable {depth : Int} {groups : List OpenGroup}

theorem le_owed (h : Layered depth groups) : ∀ d ∈ owed groups, d ≤ depth := by
  intro d hd
  obtain ⟨g, hg, -, rfl⟩ := mem_owed_iff.mp hd
  exact h.le hg

theorem settle_owed (h : Layered depth groups) (tokens : List Token) :
    settle tokens depth (owed groups) = endIn groups tokens depth := by
  induction groups generalizing tokens depth with
  | nil => simp [owed, endIn, ending, settle]
  | cons g outer ih =>
      obtain ⟨hg, houter⟩ := h
      cases hinserted : g.inserted with
      | true =>
          have hending : ending (g :: outer) = g :: ending outer :=
            List.takeWhile_cons_of_pos hinserted
          rw [owed_cons_of_inserted hinserted, settle, if_pos hg, ih houter]
          unfold endIn
          rw [hending, List.length_cons]
          dsimp only
          rw [List.drop_succ_cons, List.replicate_succ', List.append_assoc, Int.natCast_succ,
            Int.sub_sub, Int.add_comm 1]
          rfl
      | false =>
          have hending : ending (g :: outer) = [] :=
            List.takeWhile_cons_of_neg (by simp [hinserted])
          have hlt : ∀ d ∈ owed (g :: outer), d < depth := by
            rw [owed_cons_of_written hinserted]
            exact fun d hd => Int.lt_of_le_sub_one (houter.le_owed d hd)
          rw [settle_of_lt hlt, endIn, hending]
          simp

/-- A closing parenthesis of the text passes the group that it closes, and no other. -/
theorem dropWhile_owed (h : Layered depth groups) :
    (owed groups).dropWhile (fun d => depth - 1 < d) = owed groups.tail := by
  have houter := dropWhile_of_le h.tail.le_owed
  cases groups with
  | nil => rfl
  | cons g outer =>
      cases hinserted : g.inserted with
      | true =>
          have hpassed : depth - 1 < depth := Int.sub_one_lt_of_le (Int.le_refl depth)
          rw [owed_cons_of_inserted hinserted, h.1, List.dropWhile_cons,
            if_pos (decide_eq_true hpassed)]
          exact houter
      | false =>
          rw [owed_cons_of_written hinserted]
          exact houter

/-- If no group is owed its end at the depth itself, the innermost one is the text's. -/
theorem ending_eq_nil (h : Layered depth groups) (hlt : ∀ d ∈ owed groups, d < depth) :
    ending groups = [] := by
  cases groups with
  | nil => rfl
  | cons g outer =>
      refine List.takeWhile_cons_of_neg fun hinserted => ?_
      have hless := hlt g.depth (mem_owed_iff.mpr ⟨g, .head _, hinserted, rfl⟩)
      exact absurd h.1 (Int.ne_of_lt hless)

end Layered
end Scan
end RuleSheet
