import RuleSheet.Postfix

/-!
# Trees and their postfix sequences

A tree of values, functions and operators has a value of its own, and its postorder is
a sequence. Running the postorder takes nothing from the stack below it and leaves the
value of the tree there, the left operand being evaluated before the right one.
-/
namespace RuleSheet

/-- An expression without names and parentheses. -/
inductive Tree where
  | value (x : Float)
  | function (f : Builtin) (e : Tree)
  | operator (op : Operator) (l r : Tree)

namespace Tree

/-- The items of a tree, operands first. -/
def postorder : Tree → List Item
  | value x => [.value x]
  | function f e => e.postorder ++ [.function f]
  | operator op l r => l.postorder ++ r.postorder ++ [.operator op]

def eval : Tree → Float
  | value x => x
  | function f e => f.apply e.eval
  | operator op l r => op.apply l.eval r.eval

/-- The numbers that are printed while the tree is evaluated, in order. -/
def printed : Tree → List Float
  | value _ => []
  | function f e => e.printed ++ if f = .print then [e.eval] else []
  | operator _ l r => l.printed ++ r.printed

theorem run_postorder (t : Tree) (rest : List Item) (stack : List Float) :
    Postfix.run (t.postorder ++ rest) stack =
      ((Postfix.run rest (t.eval :: stack)).1,
        t.printed ++ (Postfix.run rest (t.eval :: stack)).2) := by
  induction t generalizing rest stack with
  | value x => rfl
  | function f e ih =>
      have hrun : Postfix.run (.function f :: rest) (e.eval :: stack) =
          ((Postfix.run rest (f.apply e.eval :: stack)).1,
            if f = .print then e.eval :: (Postfix.run rest (f.apply e.eval :: stack)).2
            else (Postfix.run rest (f.apply e.eval :: stack)).2) := rfl
      rw [postorder, List.append_assoc, ih, List.singleton_append, hrun, printed]
      split <;> simp [eval]
  | operator op l r ihl ihr =>
      rw [postorder, List.append_assoc, List.append_assoc, ihl, ihr, printed, List.append_assoc]
      rfl

@[simp] theorem value_postorder (t : Tree) : Postfix.value t.postorder = .ok t.eval := by
  have hrun := t.run_postorder [] []
  rw [List.append_nil] at hrun
  exact congrArg Prod.fst hrun

@[simp] theorem printed_postorder (t : Tree) : Postfix.printed t.postorder = t.printed := by
  have hrun := t.run_postorder [] []
  rw [List.append_nil] at hrun
  exact (congrArg Prod.snd hrun).trans (List.append_nil _)

end Tree
end RuleSheet
