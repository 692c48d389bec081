import Mathlib.Data.List.Basic
import Mathlib.Data.List.Perm.Basic
import Mathlib.Logic.Function.Iterate

/-!
# Finite forests and their levels

A queue of trees goes through a forest: the front tree leaves, and its children join
at the back.  `levelOrder` says what order that gives, one generation after another,
without a queue, and `levelOrder_cons` that the two agree.  `queueInduction` is the
induction along such a traversal.
-/

namespace DocaStdexec
namespace Lib

/-- A finite tree with any number of children at a node. -/
inductive RoseTree (α : Type*)
  | node (root : α) (children : List (RoseTree α))

/-- A list of trees, such as the contents of a queue. -/
abbrev Forest (α : Type*) := List (RoseTree α)

section Definitions

variable {α : Type*}

def RoseTree.root : RoseTree α → α
  | node a _ => a

def RoseTree.children : RoseTree α → Forest α
  | node _ F => F

mutual

/-- A node before its descendants. -/
def RoseTree.preorder : RoseTree α → List α
  | .node a F => a :: Forest.preorder F

/-- The nodes of a forest, one tree after the other. -/
def Forest.preorder : Forest α → List α
  | [] => []
  | t :: F => t.preorder ++ Forest.preorder F

end

namespace Forest

def roots (F : Forest α) : List α := F.map RoseTree.root

/-- The next generation, grouped by parent. -/
def children (F : Forest α) : Forest α := F.flatMap RoseTree.children

/-- The first `k` generations. -/
def levels : Nat → Forest α → List α
  | 0, _ => []
  | k + 1, F => F.roots ++ levels k F.children

/-- All generations: there are at most as many as there are nodes. -/
def levelOrder (F : Forest α) : List α := F.levels F.preorder.length

/-- The queue after the front tree has given way to its children. -/
def advance : Forest α → Forest α
  | [] => []
  | t :: F => F ++ t.children

end Forest
end Definitions

namespace Forest

variable {α : Type*} {F G : Forest α} {t : RoseTree α} {k : Nat}

@[simp] theorem preorder_nil : preorder ([] : Forest α) = [] := by rw [preorder]

theorem preorder_cons (t : RoseTree α) (F : Forest α) :
    preorder (t :: F) = t.root :: (preorder t.children ++ preorder F) := by
  cases t
  rw [preorder, RoseTree.preorder]
  rfl

theorem preorder_append (F G : Forest α) : preorder (F ++ G) = preorder F ++ preorder G := by
  induction F with
  | nil => simp
  | cons t F ih => simp [preorder_cons, ih]

theorem roots_append (F G : Forest α) : roots (F ++ G) = roots F ++ roots G := List.map_append

theorem children_append (F G : Forest α) : children (F ++ G) = children F ++ children G :=
  List.flatMap_append

theorem children_cons (t : RoseTree α) (F : Forest α) :
    children (t :: F) = t.children ++ children F := rfl

/-- The nodes are the roots and the nodes below them. -/
theorem preorder_perm (F : Forest α) : (roots F ++ preorder (children F)).Perm F.preorder := by
  induction F with
  | nil => simp [roots, children]
  | cons t F ih =>
      rw [children_cons, preorder_append, preorder_cons]
      refine List.Perm.cons _ ?_
      have hswap : (roots F ++ (preorder t.children ++ preorder (children F))).Perm
          (preorder t.children ++ (roots F ++ preorder (children F))) :=
        List.perm_append_comm_assoc ..
      exact hswap.trans (ih.append_left _)

theorem length_preorder_children (F : Forest α) :
    F.length + F.children.preorder.length = F.preorder.length := by
  have hlength := (preorder_perm F).length_eq
  rwa [List.length_append, roots, List.length_map] at hlength

theorem length_preorder_advance (t : RoseTree α) (F : Forest α) :
    (F ++ t.children).preorder.length + 1 = (preorder (t :: F)).length := by
  rw [preorder_append, preorder_cons]
  simp only [List.length_append, List.length_cons]
  omega

theorem eq_nil_of_length_preorder (h : F.preorder.length = 0) : F = [] := by
  have hsplit := length_preorder_children F
  exact List.length_eq_zero_iff.mp (by omega)

/-- The induction along the traversal: each step leaves one node fewer. -/
theorem queueInduction {motive : Forest α → Prop} (nil : motive [])
    (cons : ∀ t F, motive (F ++ t.children) → motive (t :: F)) (F : Forest α) : motive F := by
  induction hn : F.preorder.length generalizing F with
  | zero => exact eq_nil_of_length_preorder hn ▸ nil
  | succ n ih =>
      cases F with
      | nil => exact nil
      | cons t F =>
          refine cons t F (ih _ ?_)
          have hstep := length_preorder_advance t F
          omega

theorem advance_iterate_nil (k : Nat) : advance^[k] ([] : Forest α) = [] := by
  induction k with
  | zero => rfl
  | succ k ih => exact ih

/-- After as many steps as there are nodes the queue is empty. -/
theorem advance_iterate_of_le (h : F.preorder.length ≤ k) : advance^[k] F = [] := by
  induction k generalizing F with
  | zero => exact eq_nil_of_length_preorder (Nat.le_zero.mp h)
  | succ k ih =>
      cases F with
      | nil => exact advance_iterate_nil _
      | cons t F =>
          have hstep := length_preorder_advance t F
          exact ih (F := F ++ t.children) (by omega)

/-- The induction over the generations. -/
theorem levelInduction {motive : Forest α → Prop} (nil : motive [])
    (step : ∀ F : Forest α, motive F.children → motive F) (F : Forest α) : motive F := by
  induction hn : F.preorder.length using Nat.strongRecOn generalizing F with
  | ind n ih =>
      cases F with
      | nil => exact nil
      | cons t F =>
          have hsplit := length_preorder_children (t :: F)
          rw [List.length_cons] at hsplit
          exact step (t :: F) (ih _ (by omega) _ rfl)

/-! ## Level order -/

@[simp] theorem levels_nil (k : Nat) : levels k ([] : Forest α) = [] := by
  induction k with
  | zero => rfl
  | succ k ih => exact ih

/-- There are no more generations than nodes. -/
theorem levels_add (h : F.preorder.length ≤ k) (j : Nat) : F.levels (k + j) = F.levels k := by
  induction k generalizing F with
  | zero =>
      rw [eq_nil_of_length_preorder (Nat.le_zero.mp h), levels_nil, levels_nil]
  | succ k ih =>
      cases F with
      | nil => rw [levels_nil, levels_nil]
      | cons t F =>
          have hsplit := length_preorder_children (t :: F)
          rw [List.length_cons] at hsplit
          rw [Nat.succ_add, levels, levels, ih (by omega)]

theorem levels_of_le (h : F.preorder.length ≤ k) : F.levels k = F.levelOrder := by
  obtain ⟨j, rfl⟩ := Nat.exists_eq_add_of_le h
  exact levels_add (Nat.le_refl _) j

/-- All roots come first, and then the next generation. -/
theorem levelOrder_eq (F : Forest α) : F.levelOrder = F.roots ++ F.children.levelOrder := by
  have hsplit := length_preorder_children F
  calc F.levelOrder
      = F.levels (F.preorder.length + 1) := (levels_add (Nat.le_refl _) 1).symm
    _ = F.roots ++ F.children.levels F.preorder.length := rfl
    _ = F.roots ++ F.children.levelOrder := by rw [levels_of_le (by omega)]

/-- Every node is listed once. -/
theorem levelOrder_perm (F : Forest α) : F.levelOrder.Perm F.preorder := by
  induction F using levelInduction with
  | nil => simp [levelOrder]
  | step F ih =>
      rw [levelOrder_eq]
      exact (ih.append_left _).trans (preorder_perm F)

/-- Trees at the front give their roots first; their children wait behind the rest. -/
theorem levelOrder_append (F G : Forest α) :
    levelOrder (F ++ G) = F.roots ++ levelOrder (G ++ F.children) := by
  induction hH : F ++ G using levelInduction generalizing F G with
  | nil =>
      obtain ⟨rfl, rfl⟩ := List.append_eq_nil_iff.mp hH
      rfl
  | step H ih =>
      have hnext := ih F.children G.children (by rw [← hH, children_append])
      rw [levelOrder_eq, hnext, levelOrder_eq (G ++ F.children), ← hH]
      simp only [roots_append, children_append, List.append_assoc]

/-- What a queue does at each step. -/
theorem levelOrder_cons (t : RoseTree α) (F : Forest α) :
    levelOrder (t :: F) = t.root :: levelOrder (F ++ t.children) := by
  have hfront := levelOrder_append [t] F
  simpa [roots, children] using hfront

end Forest
end Lib
end DocaStdexec
