import RuleSheet.Proofs.Expression
import RuleSheet.Proofs.Postfix.Weight
import RuleSheet.Proofs.Session.Reachable
import RuleSheet.Proofs.Token.Neighbours

/-!
# Which expressions have a value

The grammar is that of expressions in which every shorthand has been made explicit.
Conversion and evaluation do not check it: they match parentheses and count operands.
Together with what the scanner guarantees about neighbours the count is enough. Where an
operand is expected, the tokens that are left weigh at most one, and elsewhere at most
nothing; a token out of its place makes the sum too small for good.

Two numerals side by side are the one fault that the scanner lets through and that the
count can make up for, with an operator that has no operand of its own.
-/
namespace RuleSheet
variable {W : Type}

/-- The tokens of a complete expression over the names of a table. -/
inductive Derives (t : Table W) : List Token → Prop
  | number (text : String) : Derives t [.number text]
  | symbol {n : String} (hn : t.contains n = true) : Derives t [.name n]
  | call {f : String} (hf : Builtin.isName f = true) {e : List Token} :
      Derives t e → Derives t (.name f :: .opening :: (e ++ [.closing]))
  | group {e : List Token} : Derives t e → Derives t (.opening :: (e ++ [.closing]))
  | binary (op : Operator) {l r : List Token} :
      Derives t l → Derives t r → Derives t (l ++ .operator op :: r)

namespace Derives

/-! A prefix of an expression is cut at its open parentheses. What stands after the last
of them is either complete, or it waits for an operand. -/

/-- Nothing, or an operand and an operator after it. -/
def Begun (t : Table W) (read : List Token) : Prop :=
  read = [] ∨ ∃ e op, Derives t e ∧ read = e ++ [.operator op]

/-- A prefix that ends in the last of its `depth` open parentheses. -/
inductive Context (t : Table W) : Nat → List Token → Prop
  | start : Context t 0 []
  | group {depth : Nat} {before begun : List Token} :
      Context t depth before → Begun t begun →
      Context t (depth + 1) (before ++ begun ++ [.opening])
  | call {depth : Nat} {before begun : List Token} {f : String} :
      Context t depth before → Begun t begun → Builtin.isName f = true →
      Context t (depth + 1) (before ++ begun ++ [.name f, .opening])

/-- A prefix after which an operand has to come. -/
def Expecting (t : Table W) (depth : Nat) (read : List Token) : Prop :=
  ∃ before begun, Context t depth before ∧ Begun t begun ∧ read = before ++ begun

/-- A prefix at the end of an operand. -/
def Complete (t : Table W) (depth : Nat) (read : List Token) : Prop :=
  ∃ before e, Context t depth before ∧ Derives t e ∧ read = before ++ e

theorem Expecting.start (t : Table W) : Expecting t 0 [] :=
  ⟨[], [], .start, .inl rfl, rfl⟩

theorem Expecting.operand {t : Table W} {depth : Nat} {read e : List Token}
    (h : Expecting t depth read) (he : Derives t e) : Complete t depth (read ++ e) := by
  obtain ⟨before, begun, hc, hb, rfl⟩ := h
  rcases hb with rfl | ⟨l, op, hl, rfl⟩
  · exact ⟨before, e, hc, he, by simp⟩
  · exact ⟨before, l ++ .operator op :: e, hc, .binary op hl he, by simp⟩

theorem Complete.operator {t : Table W} {depth : Nat} {read : List Token}
    (h : Complete t depth read) (op : Operator) :
    Expecting t depth (read ++ [.operator op]) := by
  obtain ⟨before, e, hc, he, rfl⟩ := h
  exact ⟨before, e ++ [.operator op], hc, .inr ⟨e, op, he, rfl⟩, by simp⟩

theorem Expecting.opening {t : Table W} {depth : Nat} {read : List Token}
    (h : Expecting t depth read) : Expecting t (depth + 1) (read ++ [.opening]) := by
  obtain ⟨before, begun, hc, hb, rfl⟩ := h
  exact ⟨_, [], .group hc hb, .inl rfl, (List.append_nil _).symm⟩

theorem Expecting.call {t : Table W} {depth : Nat} {read : List Token} {f : String}
    (h : Expecting t depth read) (hf : Builtin.isName f = true) :
    Expecting t (depth + 1) (read ++ [.name f, .opening]) := by
  obtain ⟨before, begun, hc, hb, rfl⟩ := h
  exact ⟨_, [], .call hc hb hf, .inl rfl, (List.append_nil _).symm⟩

theorem Complete.closing {t : Table W} {depth : Nat} {read : List Token}
    (h : Complete t (depth + 1) read) : Complete t depth (read ++ [.closing]) := by
  obtain ⟨before, e, hc, he, rfl⟩ := h
  cases hc with
  | @group _ before begun hc hb =>
      have hread : Expecting t depth (before ++ begun) := ⟨before, begun, hc, hb, rfl⟩
      have hclosed := hread.operand he.group
      simpa using hclosed
  | @call _ before begun f hc hb hf =>
      have hread : Expecting t depth (before ++ begun) := ⟨before, begun, hc, hb, rfl⟩
      have hclosed := hread.operand (he.call hf)
      simpa using hclosed

theorem Complete.derives {t : Table W} {read : List Token} (h : Complete t 0 read) :
    Derives t read := by
  obtain ⟨before, e, hc, he, rfl⟩ := h
  cases hc
  exact he

end Derives

/-- What a token of a table without function names has been read as. -/
inductive Piece.Reading (t : Table W) : Token → Piece → Prop
  | number (text : String) (x : Float) : Reading t (.number text) (.value x)
  | symbol {n : String} (hn : t.contains n = true) (hb : Builtin.isName n = false) (x : Float) :
      Reading t (.name n) (.value x)
  | function {n : String} (hb : Builtin.isName n = true) (f : Builtin) :
      Reading t (.name n) (.function f)
  | operator (op : Operator) : Reading t (.operator op) (.operator op)
  | opening : Reading t .opening .opening
  | closing : Reading t .closing .closing

theorem Table.resolve_of_get_eq_none {t : Table W} {n : String} (h : t.get n = none) :
    t.resolve n = pure none := by
  rw [resolve, h]

namespace Piece

theorem reading_of_read {t : Table W} (ht : ∀ n, Builtin.isName n = true → t.get n = none)
    {token : Token} {p : Piece} {h k : Host W} (hr : (read t token).outcome h = (.ok p, k)) :
    Reading t token p := by
  cases token with
  | number text =>
      rw [read] at hr
      cases hx : Number.read? text.toList with
      | none =>
          rw [hx] at hr
          cases congrArg Prod.fst hr
      | some x =>
          rw [hx] at hr
          cases congrArg Prod.fst hr
          exact .number text x
  | name n =>
      obtain ⟨value, j, hvalue, hr⟩ := Attempt.outcome_bind_ok.mp hr
      have hv : ((t.resolve n).run h).1 = value := Except.ok.inj (congrArg Prod.fst hvalue)
      cases hn : Builtin.isName n with
      | true =>
          rw [Table.resolve_of_get_eq_none (ht n hn)] at hv
          obtain rfl : none = value := hv
          obtain ⟨f, hf⟩ := Option.isSome_iff_exists.mp hn
          dsimp only at hr
          rw [hf] at hr
          cases congrArg Prod.fst hr
          exact .function hn f
      | false =>
          cases value with
          | none =>
              have hf : Builtin.ofName? n = none := by
                simpa [Builtin.isName] using hn
              dsimp only at hr
              rw [hf] at hr
              cases congrArg Prod.fst hr
          | some x =>
              cases congrArg Prod.fst hr
              refine .symbol ?_ hn x
              cases hg : t.get n with
              | none =>
                  rw [Table.resolve_of_get_eq_none hg] at hv
                  cases hv
              | some symbol => rw [Table.contains, hg]; rfl
  | operator op =>
      cases congrArg Prod.fst hr
      exact .operator op
  | opening =>
      cases congrArg Prod.fst hr
      exact .opening
  | closing =>
      cases congrArg Prod.fst hr
      exact .closing
  | stray c => cases congrArg Prod.fst hr

theorem forall₂_reading {t : Table W} (ht : ∀ n, Builtin.isName n = true → t.get n = none)
    {tokens : List Token} {pieces : List Piece} {h k : Host W}
    (hr : (tokens.mapM (read t) : Attempt W _).outcome h = (.ok pieces, k)) :
    List.Forall₂ (Reading t) tokens pieces := by
  induction tokens generalizing pieces h k with
  | nil =>
      rw [List.mapM_nil] at hr
      cases congrArg Prod.fst hr
      exact .nil
  | cons token rest ih =>
      rw [List.mapM_cons] at hr
      obtain ⟨p, j, hp, hr⟩ := Attempt.outcome_bind_ok.mp hr
      obtain ⟨more, i, hmore, hr⟩ := Attempt.outcome_bind_ok.mp hr
      cases congrArg Prod.fst hr
      exact .cons (reading_of_read ht hp) (ih hmore)

end Piece

/-- The two are not both numerals. -/
def Token.NotNumerals (last next : Token) : Prop :=
  ¬(last.isNumber = true ∧ next.isNumber = true)

/-- The token `next` does not begin an operand directly after one, and a function name
has its parenthesis. -/
def Token.Apart (last next : Token) : Prop :=
  Fits last next ∧ NotNumerals last next

theorem Token.Apart.startsOperand {last next : Token} (h : Apart last next)
    (hl : last.endsOperand = true) : next.startsOperand = false := by
  rw [Bool.eq_false_iff]
  intro hn
  exact h.2 (h.1.operands hl hn)

theorem Token.isChain_apart {tokens : List Token} (hf : tokens.IsChain Fits)
    (hn : tokens.IsChain NotNumerals) : tokens.IsChain Apart := by
  induction tokens with
  | nil => exact .nil
  | cons token rest ih =>
      rw [List.isChain_cons] at hf hn ⊢
      exact ⟨fun next hnext => ⟨hf.1 next hnext, hn.1 next hnext⟩, ih hf.2 hn.2⟩

namespace Derives
open Piece

/-- What may still come weighs at most one where an operand may begin, and nothing
elsewhere. -/
theorem weight_le {t : Table W} {tokens : List Token} {pieces : List Piece}
    (hr : List.Forall₂ (Reading t) tokens pieces) (hc : tokens.IsChain Token.Apart) :
    (pieces.map Piece.weight).sum ≤ 1 ∧
      ((∀ next ∈ tokens.head?, next.startsOperand = false) →
        (pieces.map Piece.weight).sum ≤ 0) := by
  induction hr with
  | nil => exact ⟨by decide, fun _ => by decide⟩
  | @cons token p rest ps hp _ ih =>
      rw [List.isChain_cons] at hc
      obtain ⟨hany, hnone⟩ := ih hc.2
      rw [List.map_cons, List.sum_cons]
      have hends (he : token.endsOperand = true) : (ps.map Piece.weight).sum ≤ 0 :=
        hnone fun next hnext => (hc.1 next hnext).startsOperand he
      have hstarts (hs : token.startsOperand = true) {P : Prop} :
          (∀ next ∈ (token :: rest).head?, next.startsOperand = false) → P := by
        intro h
        have hn := h token rfl
        rw [hs] at hn
        cases hn
      cases hp with
      | number text x =>
          have hle := hends rfl
          simp only [Piece.weight]
          exact ⟨by omega, hstarts rfl⟩
      | symbol hn hb x =>
          have hle := hends (by simp [Token.endsOperand, hb])
          simp only [Piece.weight]
          exact ⟨by omega, hstarts rfl⟩
      | function hb f =>
          simp only [Piece.weight]
          exact ⟨by omega, hstarts rfl⟩
      | operator op =>
          simp only [Piece.weight]
          exact ⟨by omega, fun _ => by omega⟩
      | opening =>
          simp only [Piece.weight]
          exact ⟨by omega, hstarts rfl⟩
      | closing =>
          have hle := hends rfl
          simp only [Piece.weight]
          exact ⟨by omega, fun _ => by omega⟩

/-- How far a prefix has come: what may follow it, and what that has to weigh. -/
inductive Stage (t : Table W) (depth : Nat) : List Token → List Token → Int → Prop
  | expecting {read rest : List Token} :
      Expecting t depth read → Stage t depth read rest 1
  | called {read rest : List Token} {f : String} :
      Expecting t depth read → Builtin.isName f = true →
      (∀ next ∈ rest.head?, next = .opening) → Stage t depth (read ++ [.name f]) rest 1
  | complete {read rest : List Token} :
      Complete t depth read → (∀ next ∈ rest.head?, next.startsOperand = false) →
      Stage t depth read rest 0

/-- One token further. Where the token does not fit, it wants more operands after it than can
come. -/
theorem Stage.step {t : Table W} {y z : Yard} {token : Token} {read rest : List Token}
    {p : Piece} {ps : List Piece} {due : Int} (h : Stage t y.depth read (token :: rest) due)
    (hp : Reading t token p) (hr : List.Forall₂ (Reading t) rest ps)
    (hc : (token :: rest).IsChain Token.Apart) (hy : y.step p = some z)
    (hdue : p.weight + (ps.map Piece.weight).sum = due) :
    Stage t z.depth (read ++ [token]) rest (ps.map Piece.weight).sum := by
  rw [List.isChain_cons] at hc
  have hle := weight_le hr hc.2
  have hends (he : token.endsOperand = true) :
      ∀ next ∈ rest.head?, next.startsOperand = false :=
    fun next hnext => (hc.1 next hnext).startsOperand he
  have hd := Yard.depth_step hy
  have hsum : (ps.map Piece.weight).sum = due - p.weight := by omega
  cases h with
  | expecting hread =>
      cases hp with
      | number text x =>
          rw [hsum, show z.depth = y.depth from hd]
          exact .complete (hread.operand (.number text)) (hends rfl)
      | symbol hn hb x =>
          rw [hsum, show z.depth = y.depth from hd]
          exact .complete (hread.operand (.symbol hn)) (hends (by simp [Token.endsOperand, hb]))
      | function hb f =>
          rw [hsum, show z.depth = y.depth from hd]
          exact .called hread hb fun next hnext => (hc.1 next hnext).1.argument hb
      | operator op =>
          have hmost := hle.1
          simp only [hsum, Piece.weight] at hmost
          omega
      | opening =>
          rw [hsum, show z.depth = y.depth + 1 from hd]
          exact .expecting hread.opening
      | closing =>
          have hmost := hle.2 (hends rfl)
          simp only [hsum, Piece.weight] at hmost
          omega
  | @called read _ f hread hf hopening =>
      obtain rfl : token = .opening := hopening token rfl
      cases hp
      rw [hsum, show z.depth = y.depth + 1 from hd, List.append_assoc]
      exact .expecting (hread.call hf)
  | complete hread hnot =>
      have hstarts := hnot token rfl
      cases hp with
      | number text x => cases hstarts
      | symbol hn hb x => cases hstarts
      | function hb f => cases hstarts
      | opening => cases hstarts
      | operator op =>
          rw [hsum, show z.depth = y.depth from hd]
          exact .expecting (hread.operator op)
      | closing =>
          rw [hsum]
          rw [← show z.depth + 1 = y.depth from hd] at hread
          exact .complete hread.closing (hends rfl)

theorem Stage.derives {t : Table W} {read : List Token} (h : Stage t 0 read [] 0) :
    Derives t read := by
  generalize hdue : (0 : Int) = due at h
  cases h with
  | expecting hread => cases hdue
  | called hread hf ho => cases hdue
  | complete hread hnot => exact hread.derives

theorem Stage.run {t : Table W} {y z : Yard} {tokens read : List Token} {pieces : List Piece}
    {due : Int} (h : Stage t y.depth read tokens due)
    (hr : List.Forall₂ (Reading t) tokens pieces) (hc : tokens.IsChain Token.Apart)
    (hy : pieces.foldlM Yard.step y = some z) (hz : z.depth = 0)
    (hdue : (pieces.map Piece.weight).sum = due) : Derives t (read ++ tokens) := by
  induction hr generalizing y read due with
  | nil =>
      obtain rfl : y = z := Option.some.inj hy
      subst hdue
      rw [hz] at h
      rw [List.append_nil]
      exact h.derives
  | @cons token p rest ps hp hrest ih =>
      rw [List.foldlM_cons] at hy
      obtain ⟨x, hx, hy⟩ := Option.bind_eq_some_iff.mp hy
      rw [List.map_cons, List.sum_cons] at hdue
      have hnext := h.step hp hrest hc hx hdue
      have hall := ih hnext (List.isChain_cons.mp hc).2 hy rfl
      rwa [List.append_assoc] at hall

end Derives

theorem Yard.weight_foldlM {pieces : List Piece} {y z : Yard}
    (h : pieces.foldlM Yard.step y = some z) :
    z.weight = y.weight + (pieces.map Piece.weight).sum := by
  induction pieces generalizing y with
  | nil =>
      obtain rfl : y = z := Option.some.inj h
      simp
  | cons p rest ih =>
      rw [List.foldlM_cons] at h
      obtain ⟨x, hx, hz⟩ := Option.bind_eq_some_iff.mp h
      rw [ih hz, weight_step hx, List.map_cons, List.sum_cons]
      omega

/-- Tokens that stand apart are an expression if they have a postfix sequence and it has
a value. -/
theorem Derives.of_value {t : Table W} {tokens : List Token} {pieces : List Piece}
    {items : List Item} {x : Float} (hr : List.Forall₂ (Piece.Reading t) tokens pieces)
    (hc : tokens.IsChain Token.Apart) (hi : Postfix.ofPieces pieces = some items)
    (hv : Postfix.value items = .ok x) : Derives t tokens := by
  obtain ⟨z, hz, hrelease⟩ := Postfix.ofPieces_eq_some_iff.mp hi
  obtain ⟨hweight, hdepth⟩ := Yard.weight_releaseAll hrelease
  have hsum := Yard.weight_foldlM hz
  have hone := Postfix.weight_of_value hv
  refine (Stage.expecting (Expecting.start t)).run hr hc hz hdepth ?_
  have hempty : Yard.empty.weight = 0 := rfl
  have hsame : z.weight = (items.map Item.weight).sum := hweight.symm
  omega

theorem Derives.isChain {t : Table W} {tokens : List Token} (h : Derives t tokens) :
    tokens.IsChain Token.NotNumerals := by
  have closing_end {e : List Token} (he : e.IsChain Token.NotNumerals) :
      (e ++ [Token.closing]).IsChain Token.NotNumerals := by
    refine he.append (.singleton _) fun last _ next hnext hboth => ?_
    obtain rfl : Token.closing = next := Option.some.inj hnext
    cases hboth.2
  induction h with
  | number text => exact .singleton _
  | symbol hn => exact .singleton _
  | call hf _ ih =>
      refine ((closing_end ih).cons fun next _ hboth => ?_).cons fun next _ hboth => ?_
      · cases hboth.1
      · cases hboth.1
  | group _ ih =>
      refine (closing_end ih).cons fun next _ hboth => ?_
      cases hboth.1
  | binary op _ _ ihl ihr =>
      refine ihl.append (ihr.cons fun next _ hboth => ?_) fun last _ next hnext hboth => ?_
      · cases hboth.1
      · obtain rfl : Token.operator op = next := Option.some.inj hnext
        cases hboth.2

namespace Session

theorem derives_of_value {s : Session W} (hs : s.Reachable) {text : String}
    (hq : '?' ∉ text.toList) {h k : Host W} {x : Float}
    (hv : (s.evaluateExpression text).outcome h = (.ok x, k))
    (hapart : (Token.scan s.settings.autoBalance text.toList).IsChain Token.NotNumerals) :
    Derives s.table (Token.scan s.settings.autoBalance text.toList) := by
  rw [evaluateExpression, Expression.value_plain hq] at hv
  obtain ⟨items, j, hitems, hvalue, _⟩ := Expression.outcome_plainValue.mp hv
  obtain ⟨pieces, hpieces, hof⟩ := Postfix.outcome_ofTokens.mp hitems
  have hread := Piece.forall₂_reading (fun n hn => hs.named.get_of_isName hn) hpieces
  have hfits := Token.isChain_scan s.settings.autoBalance text.toList
  exact .of_value hread (Token.isChain_apart hfits hapart) hof hvalue

/-- A text that has a value is an expression of the grammar, unless two numerals stand
side by side in it. -/
theorem derives_iff_of_value {s : Session W} (hs : s.Reachable) {text : String}
    (hq : '?' ∉ text.toList) {h k : Host W} {x : Float}
    (hv : (s.evaluateExpression text).outcome h = (.ok x, k)) :
    Derives s.table (Token.scan s.settings.autoBalance text.toList) ↔
      (Token.scan s.settings.autoBalance text.toList).IsChain Token.NotNumerals :=
  ⟨fun hd => hd.isChain, derives_of_value hs hq hv⟩

/-- A product with a group, in which the multiplication is left out. -/
theorem derives_product :
    ∃ (s : Session Unit) (h k : Host Unit) (x : Float), s.Reachable ∧
      (s.evaluateExpression "2 (3 + 1)").outcome h = (.ok x, k) ∧
      Derives s.table (Token.scan s.settings.autoBalance "2 (3 + 1)".toList) := by
  let s : Session Unit := create {}
  have hscan : Token.scan s.settings.autoBalance "2 (3 + 1)".toList =
      [.number "2", .operator .multiply, .opening, .number "3", .operator .add, .number "1",
        .closing] := by
    decide +kernel
  have hok : ((s.evaluateExpression "2 (3 + 1)").outcome ⟨(), []⟩).1.isOk = true := by
    decide +kernel
  rcases hv : (s.evaluateExpression "2 (3 + 1)").outcome ⟨(), []⟩ with ⟨e | x, k⟩
  · rw [hv] at hok
    cases hok
  · refine ⟨s, ⟨(), []⟩, k, x, .create {}, hv,
      (derives_iff_of_value (.create {}) (by decide +kernel) hv).mpr ?_⟩
    change (Token.scan s.settings.autoBalance "2 (3 + 1)".toList).IsChain Token.NotNumerals
    rw [hscan]
    simp [Token.NotNumerals, Token.isNumber]

/-- Two numerals side by side, with an operator that has nothing to its right. -/
theorem exists_value_not_derives :
    ∃ (s : Session Unit) (text : String) (h k : Host Unit) (x : Float),
      s.Reachable ∧ '?' ∉ text.toList ∧ (s.evaluateExpression text).outcome h = (.ok x, k) ∧
      ¬Derives s.table (Token.scan s.settings.autoBalance text.toList) := by
  let s : Session Unit := create {}
  have hscan : Token.scan s.settings.autoBalance "1.2.3+".toList =
      [.number "1.2", .number ".3", .operator .add] := by
    decide +kernel
  have hok : ((s.evaluateExpression "1.2.3+").outcome ⟨(), []⟩).1.isOk = true := by
    decide +kernel
  rcases hv : (s.evaluateExpression "1.2.3+").outcome ⟨(), []⟩ with ⟨e | x, k⟩
  · rw [hv] at hok
    cases hok
  · refine ⟨s, "1.2.3+", ⟨(), []⟩, k, x, .create {}, by decide +kernel, hv, fun hd => ?_⟩
    have hchain := hd.isChain
    rw [hscan] at hchain
    exact (List.isChain_cons_cons.mp hchain).1 ⟨rfl, rfl⟩

end Session
end RuleSheet
