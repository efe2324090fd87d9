import Mathlib.Algebra.BigOperators.Group.List.Basic
import Mathlib.Algebra.GroupWithZero.Nat

/-!
# Walks with a stack

A walk takes the top node off its stack, looks at it and puts its children on, the last on
top. What it looks at is every node under the ones it began with, and it ends, since each turn
leaves fewer nodes under the stack.
-/

set_option autoImplicit false

namespace Rdap.Lib

universe u

/-- Trees: a node counts for more than what is under it. -/
structure Branching (α : Type u) where
  children : α → List α
  size : α → Nat
  children_size : ∀ node, ((children node).map size).sum < size node

namespace Branching

variable {α : Type u} {ε : Type} (B : Branching α)

inductive Within (root : α) : α → Prop where
  | root : Within root root
  | child {node next : α} : Within root node → next ∈ B.children node → Within root next

/-- The top of the stack is the head of the list. -/
def push (node : α) (stack : List α) : List α := (B.children node).reverse ++ stack

theorem push_size (node : α) (stack : List α) :
    ((B.push node stack).map B.size).sum < ((node :: stack).map B.size).sum := by
  have hlt := B.children_size node
  simp only [push, List.map_append, List.map_reverse, List.sum_append, List.sum_reverse,
    List.map_cons, List.sum_cons]
  omega

def walk (visit : α → Except ε Unit) : List α → Except ε Unit
  | [] => .ok ()
  | node :: stack =>
    match visit node with
    | .error e => .error e
    | .ok _ => walk visit (B.push node stack)
termination_by stack => (stack.map B.size).sum
decreasing_by exact B.push_size node stack

variable {B}

theorem Within.under {root next node : α} (hchild : next ∈ B.children root) (h : B.Within next node) :
    B.Within root node := by
  induction h with
  | root => exact .child .root hchild
  | child _ hmem ih => exact .child ih hmem

/-- A node under the root is the root or under one of its children. -/
theorem within_iff {root node : α} :
    B.Within root node ↔ node = root ∨ ∃ next ∈ B.children root, B.Within next node := by
  constructor
  · intro h
    induction h with
    | root => exact Or.inl rfl
    | child _ hmem ih =>
      rcases ih with rfl | ⟨next, hnext, hwithin⟩
      · exact Or.inr ⟨_, hmem, .root⟩
      · exact Or.inr ⟨next, hnext, .child hwithin hmem⟩
  · rintro (rfl | ⟨next, hchild, h⟩)
    · exact .root
    · exact h.under hchild

theorem Within.trans {a b c : α} (hab : B.Within a b) (hbc : B.Within b c) : B.Within a c := by
  induction hbc with
  | root => exact hab
  | child _ hmem ih => exact .child ih hmem

/-- A turn trades the top node for its children. -/
theorem forall_within_turn {node : α} {stack : List α} {Q : α → Prop} :
    (∀ root ∈ node :: stack, ∀ n, B.Within root n → Q n) ↔
      Q node ∧ ∀ root ∈ B.push node stack, ∀ n, B.Within root n → Q n := by
  simp only [push, List.forall_mem_cons, List.forall_mem_append, List.mem_reverse]
  constructor
  · rintro ⟨htop, hrest⟩
    exact ⟨htop node .root, fun next hnext n hn => htop n (hn.under hnext), hrest⟩
  · rintro ⟨hnode, hchildren, hrest⟩
    refine ⟨fun n hn => ?_, hrest⟩
    rcases within_iff.mp hn with rfl | ⟨next, hnext, hn⟩
    · exact hnode
    · exact hchildren next hnext n hn

/-- The walk goes through if there is nothing to object to anywhere. -/
theorem walk_ok_iff {visit : α → Except ε Unit} (stack : List α) : B.walk visit stack = .ok () ↔
    ∀ root ∈ stack, ∀ node, B.Within root node → visit node = .ok () := by
  induction stack using walk.induct B visit with
  | case1 => simp [walk]
  | case2 node stack e hvisit =>
    rw [walk, hvisit, forall_within_turn, hvisit]
    simp
  | case3 node stack u hvisit ih =>
    rw [walk, hvisit, forall_within_turn, hvisit]
    simp only [true_and]
    exact ih

end Branching

end Rdap.Lib
