import RuleSheet.Proofs.Postfix.Piece

/-!
# Nothing is lost in the yard

Every piece but a parenthesis has one item. The yard sends the item or holds it back, and
whatever it releases it moves from what is held to what is sent. So the items of a sequence
are those of the pieces, in another order, and each as often as it has come. Values are never
held back, so among themselves they keep their order.
-/
namespace RuleSheet
variable {W α β : Type}

theorem filterMap_cons_toList (f : α → Option β) (a : α) (l : List α) :
    (a :: l).filterMap f = (f a).toList ++ l.filterMap f := by
  rw [List.filterMap_cons]
  cases f a <;> rfl

theorem filterMap_toList (f : α → Option β) (o : Option α) :
    o.toList.filterMap f = (o.bind f).toList := by
  cases o with
  | none => rfl
  | some a => exact (filterMap_cons_toList f a []).trans (List.append_nil _)

theorem Act.run_filterMapM_cons {f : α → Act W (Option β)} {a : α} {l : List α} {x : Option β}
    {xs : List β} {h j k : Host W} (hx : (f a).run h = (x, j))
    (hxs : (l.filterMapM f).run j = (xs, k)) :
    ((a :: l).filterMapM f).run h = (x.toList ++ xs, k) := by
  rw [List.filterMapM_cons, StateT.run_bind, hx]
  cases x with
  | none => exact hxs
  | some b =>
      change ((List.cons b <$> l.filterMapM f : Act W _)).run j = _
      rw [StateT.run_map, hxs]
      rfl

namespace Item

def value? : Item → Option Float
  | value x => some x
  | _ => none

def isValue (i : Item) : Bool :=
  i.value?.isSome

end Item

/-- What will be sent for what is held. -/
def Held.item? : Held → Option Item
  | opening => none
  | operator op => some (.operator op)
  | function f => some (.function f)

/-- What stands for the piece in the sequence. -/
def Piece.item? : Piece → Option Item
  | value x => some (.value x)
  | function f => some (.function f)
  | operator op => some (.operator op)
  | opening | closing => none

theorem Held.value?_item? {p : Held} {i : Item} (h : p.item? = some i) : i.value? = none := by
  cases p with
  | opening => cases h
  | operator op =>
      cases h
      rfl
  | function f =>
      cases h
      rfl

namespace Yard

/-- What has been sent and what is still to be sent. -/
def items (y : Yard) : List Item :=
  y.sent ++ y.held.filterMap Held.item?

/-- The values that have been sent, in order. -/
def values (y : Yard) : List Float :=
  y.sent.reverse.filterMap Item.value?

/-- Items were only moved from what is held to what is sent, and no value was among them. -/
structure Moved (y z : Yard) : Prop where
  items : z.items.Perm y.items
  values : z.values = y.values

theorem Moved.refl (y : Yard) : y.Moved y :=
  ⟨.refl _, rfl⟩

theorem Moved.trans {x y z : Yard} (h : x.Moved y) (k : y.Moved z) : x.Moved z :=
  ⟨k.items.trans h.items, k.values.trans h.values⟩

theorem moved_release {sent : List Item} {held : List Held} {p : Held} {i : Item}
    (hp : p.item? = some i) : Moved ⟨sent, p :: held⟩ ⟨i :: sent, held⟩ where
  items := by
    change (i :: (sent ++ _)).Perm (sent ++ List.filterMap Held.item? (p :: held))
    rw [List.filterMap_cons_some hp]
    exact List.perm_middle.symm
  values := by
    simp [values, Held.value?_item? hp]

theorem moved_opening (sent : List Item) (held : List Held) :
    Moved ⟨sent, .opening :: held⟩ ⟨sent, held⟩ :=
  ⟨.refl _, rfl⟩

theorem moved_releaseBefore (op : Operator) (sent : List Item) (held : List Held) :
    Moved ⟨sent, held⟩ (releaseBefore op sent held) := by
  fun_induction releaseBefore op sent held with
  | case1 sent top rest hy ih => exact (moved_release rfl).trans ih
  | case2 => exact .refl _
  | case3 => exact .refl _

theorem moved_releaseGroup {sent : List Item} {held : List Held} {z : Yard}
    (h : releaseGroup sent held = some z) : Moved ⟨sent, held⟩ z := by
  fun_induction releaseGroup sent held with
  | case1 => cases h
  | case2 sent rest =>
      obtain rfl := Option.some.inj h
      exact moved_opening sent rest
  | case3 sent op rest ih => exact (moved_release rfl).trans (ih h)
  | case4 sent f rest ih => exact (moved_release rfl).trans (ih h)

theorem moved_releaseCall (y : Yard) : y.Moved y.releaseCall := by
  obtain ⟨sent, held⟩ := y
  unfold releaseCall
  split
  · rename_i f rest hheld
    obtain rfl : held = .function f :: rest := hheld
    exact moved_release rfl
  · exact .refl _

theorem moved_releaseAll {sent items : List Item} {held : List Held}
    (h : releaseAll sent held = .ok items) : Moved ⟨sent, held⟩ ⟨items.reverse, []⟩ := by
  fun_induction releaseAll sent held with
  | case1 sent =>
      obtain rfl := Except.ok.inj h
      rw [List.reverse_reverse]
      exact .refl _
  | case2 => cases h
  | case3 sent op rest ih => exact (moved_release rfl).trans (ih h)
  | case4 sent f rest ih => exact (moved_release rfl).trans (ih h)

/-- The yard has what it had, and the item of one piece. -/
theorem items_step {y z : Yard} {p : Piece} (h : y.step p = some z) :
    z.items.Perm (p.item?.toList ++ y.items) ∧
      z.values = y.values ++ (p.item?.bind Item.value?).toList := by
  cases p with
  | value x =>
      obtain rfl := Option.some.inj h
      exact ⟨.refl _, by simp [values, send, Piece.item?, Item.value?]⟩
  | function f =>
      obtain rfl := Option.some.inj h
      exact ⟨List.perm_middle, (List.append_nil _).symm⟩
  | operator op =>
      obtain rfl := Option.some.inj h
      have hmoved := moved_releaseBefore op y.sent y.held
      exact ⟨List.perm_middle.trans (hmoved.items.cons _),
        hmoved.values.trans (List.append_nil _).symm⟩
  | opening =>
      obtain rfl := Option.some.inj h
      exact ⟨.refl _, (List.append_nil _).symm⟩
  | closing =>
      obtain ⟨w, hw, rfl⟩ := Option.map_eq_some_iff.mp h
      have hmoved := (moved_releaseGroup hw).trans (moved_releaseCall w)
      exact ⟨hmoved.items, hmoved.values.trans (List.append_nil _).symm⟩

theorem items_foldlM_step {pieces : List Piece} {y z : Yard}
    (h : pieces.foldlM step y = some z) :
    z.items.Perm (pieces.filterMap Piece.item? ++ y.items) ∧
      z.values = y.values ++ (pieces.filterMap Piece.item?).filterMap Item.value? := by
  induction pieces generalizing y with
  | nil =>
      obtain rfl : y = z := Option.some.inj h
      exact ⟨.refl _, (List.append_nil _).symm⟩
  | cons p rest ih =>
      rw [List.foldlM_cons] at h
      obtain ⟨x, hx, hz⟩ := Option.bind_eq_some_iff.mp h
      obtain ⟨hitems, hvalues⟩ := items_step hx
      obtain ⟨hmore, hlater⟩ := ih hz
      rw [filterMap_cons_toList, List.filterMap_append, filterMap_toList]
      constructor
      · refine (hmore.trans (hitems.append_left _)).trans ?_
        rw [← List.append_assoc]
        exact List.perm_append_comm.append_right _
      · rw [hlater, hvalues, List.append_assoc]

end Yard

namespace Postfix

/-- The items of a sequence are those of the pieces, and the values come in their order. -/
theorem items_ofPieces {pieces : List Piece} {items : List Item}
    (h : ofPieces pieces = some items) :
    items.Perm (pieces.filterMap Piece.item?) ∧
      items.filterMap Item.value? = (pieces.filterMap Piece.item?).filterMap Item.value? := by
  obtain ⟨y, hy, hall⟩ := ofPieces_eq_some_iff.mp h
  obtain ⟨hitems, hvalues⟩ := Yard.items_foldlM_step hy
  have hmoved := Yard.moved_releaseAll hall
  have hsent : Yard.items ⟨items.reverse, []⟩ = items.reverse := List.append_nil _
  have hinOrder : Yard.values ⟨items.reverse, []⟩ = items.filterMap Item.value? :=
    congrArg (List.filterMap Item.value?) (List.reverse_reverse items)
  constructor
  · have hempty : pieces.filterMap Piece.item? ++ Yard.empty.items = pieces.filterMap Piece.item? :=
      List.append_nil _
    rw [← hempty]
    exact (List.reverse_perm items).symm.trans (hsent ▸ hmoved.items.trans hitems)
  · rw [← hinOrder, hmoved.values, hvalues]
    rfl

end Postfix

namespace Token

/-- The number that the token spells, or the value of the symbol that it names. -/
def value? (t : Table W) : Token → Act W (Option Float)
  | number text => pure (Number.read? text.toList)
  | name n => t.resolve n
  | _ => pure none

/-- The operator that the token is, or the function that it names. A name that means a symbol
means no function. -/
def operation? (t : Table W) : Token → Option Item
  | operator op => some (.operator op)
  | name n => if t.contains n then none else (Builtin.ofName? n).map .function
  | _ => none

def isParenthesis : Token → Bool
  | opening | closing => true
  | _ => false

theorem value?_of_read {t : Table W} {token : Token} {p : Piece} {h k : Host W}
    (hp : (Piece.read t token).outcome h = (.ok p, k)) :
    (token.value? t).run h = (p.item?.bind Item.value?, k) ∧
      token.operation? t = p.item?.filter (fun i => !i.isValue) ∧
      token.isParenthesis = p.item?.isNone := by
  cases token with
  | number text =>
      rw [Piece.read] at hp
      cases hx : Number.read? text.toList with
      | none =>
          rw [hx] at hp
          cases congrArg Prod.fst hp
      | some x =>
          rw [hx] at hp
          cases hp
          exact ⟨by rw [value?, hx]; rfl, rfl, rfl⟩
  | name n =>
      have hknown : ((t.resolve n).run h).1.isSome = t.contains n := by
        rw [Table.resolve, Table.contains]
        cases t.get n with
        | none => rfl
        | some symbol => cases symbol <;> rfl
      rw [Piece.read, Attempt.outcome_lift_bind] at hp
      rw [value?, operation?, ← hknown]
      rcases hrun : (t.resolve n).run h with ⟨x | x, j⟩
      · rw [hrun] at hp
        dsimp only at hp
        cases hf : Builtin.ofName? n with
        | none =>
            rw [hf] at hp
            cases congrArg Prod.fst hp
        | some f =>
            rw [hf] at hp
            cases hp
            exact ⟨rfl, rfl, rfl⟩
      · rw [hrun] at hp
        cases hp
        exact ⟨rfl, rfl, rfl⟩
  | operator op =>
      cases hp
      exact ⟨rfl, rfl, rfl⟩
  | opening =>
      cases hp
      exact ⟨rfl, rfl, rfl⟩
  | closing =>
      cases hp
      exact ⟨rfl, rfl, rfl⟩
  | stray c => cases congrArg Prod.fst hp

theorem values_of_mapM_read {t : Table W} {tokens : List Token} {pieces : List Piece}
    {h k : Host W} (hp : (tokens.mapM (Piece.read t) : Attempt W _).outcome h = (.ok pieces, k)) :
    (tokens.filterMapM (value? t) : Act W _).run h =
        ((pieces.filterMap Piece.item?).filterMap Item.value?, k) ∧
      tokens.filterMap (operation? t) =
        (pieces.filterMap Piece.item?).filter (fun i => !i.isValue) ∧
      (tokens.countP fun token => !token.isParenthesis) =
        (pieces.filterMap Piece.item?).length := by
  induction tokens generalizing h pieces with
  | nil =>
      cases hp
      exact ⟨rfl, rfl, rfl⟩
  | cons token rest ih =>
      rw [List.mapM_cons] at hp
      obtain ⟨p, j, hfirst, hp⟩ := Attempt.outcome_bind_ok.mp hp
      obtain ⟨more, l, hmore, hp⟩ := Attempt.outcome_bind_ok.mp hp
      cases hp
      obtain ⟨hvalue, hoperation, hparenthesis⟩ := value?_of_read hfirst
      obtain ⟨hvalues, hoperations, hcount⟩ := ih hmore
      rw [Act.run_filterMapM_cons hvalue hvalues, filterMap_cons_toList, filterMap_cons_toList,
        hoperation, hoperations, List.countP_cons, hparenthesis, hcount, List.filterMap_append,
        filterMap_toList, List.filter_append, List.length_append]
      refine ⟨rfl, congrArg (· ++ _) ?_, ?_⟩
      · cases p.item? with
        | none => rfl
        | some i => cases hi : i.isValue <;> simp [hi]
      · cases p.item? with
        | none => exact (Nat.zero_add _).symm
        | some i => exact Nat.add_comm _ _

end Token

namespace Postfix

/-- Whatever the tokens are, if they are converted, the sequence has one item for each of them
that is no parenthesis: the values in the order of the tokens, as they were looked up one after
the other, and the operators and functions in some order. -/
theorem conserved_of_ofTokens {t : Table W} {tokens : List Token} {items : List Item}
    {h k : Host W} (hout : (ofTokens t tokens).outcome h = (.ok items, k)) :
    (tokens.filterMapM (Token.value? t) : Act W _).run h = (items.filterMap Item.value?, k) ∧
      (items.filter fun i => !i.isValue).Perm (tokens.filterMap (Token.operation? t)) ∧
      items.length = tokens.countP fun token => !token.isParenthesis := by
  obtain ⟨pieces, hpieces, hitems⟩ := outcome_ofTokens.mp hout
  obtain ⟨hvalues, hoperations, hcount⟩ := Token.values_of_mapM_read hpieces
  obtain ⟨hperm, hinOrder⟩ := items_ofPieces hitems
  refine ⟨?_, ?_, ?_⟩
  · rw [hvalues, hinOrder]
  · rw [hoperations]
    exact hperm.filter _
  · rw [hcount]
    exact hperm.length_eq

/-- Two operands side by side, a function without a parenthesis, and a getter that answers
something else each time. -/
theorem conserved_of_misplaced :
    ∃ (t : Table Float) (h k : Host Float) (items : List Item),
      let tokens : List Token := [.name "abs", .name "n", .operator .add, .opening, .name "n",
        .number "2", .closing]
      (ofTokens t tokens).outcome h = (.ok items, k) ∧
      (tokens.filterMapM (Token.value? t) : Act Float _).run h =
        (items.filterMap Item.value?, k) ∧
      (items.filter fun i => !i.isValue).Perm [.function .abs, .operator .add] ∧
      items.length = 5 := by
  let a : Accessor Float := ⟨"n", fun w => (w, w + 1), fun x _ => x⟩
  let t : Table Float := Table.add .initial "n" (.accessor a) (by decide +kernel)
  let tokens : List Token := [.name "abs", .name "n", .operator .add, .opening, .name "n",
    .number "2", .closing]
  have hok : ((ofTokens t tokens).outcome ⟨5, []⟩).1.isOk = true := by decide +kernel
  rcases hout : (ofTokens t tokens).outcome ⟨5, []⟩ with ⟨e | items, k⟩
  · rw [hout] at hok
    cases hok
  · obtain ⟨hvalues, hoperations, hlength⟩ := conserved_of_ofTokens hout
    exact ⟨t, ⟨5, []⟩, k, items, hout, hvalues, hoperations, hlength⟩

end Postfix
end RuleSheet
