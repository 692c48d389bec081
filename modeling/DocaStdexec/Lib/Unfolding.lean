import DocaStdexec.Lib.Forest

/-!
# Executing a forest in any order that respects it

`Unfolds F log G` says what it means to have executed `log`, starting from the forest `F`,
and to have `G` still to do: at any time some root is executed, and its children take its
place.  Nothing is said about which root comes first.  So every node of `log` comes after
its parent, and `Unfolds.preorder_perm` says that no node is lost or executed twice.
-/

namespace DocaStdexec
namespace Lib
namespace Forest

variable {α : Type*} {F G H : Forest α} {log : List α} {o : RoseTree α}

/-- The order of the trees does not matter for which nodes there are. -/
theorem preorder_perm_of_perm (h : F.Perm G) : F.preorder.Perm G.preorder := by
  induction h with
  | nil => exact List.Perm.refl _
  | cons t _ ih =>
      rw [preorder_cons, preorder_cons]
      exact (ih.append_left _).cons _
  | swap t u F =>
      rw [preorder_cons, preorder_cons, preorder_cons, preorder_cons]
      have hswap := List.perm_append_comm_assoc (u.root :: preorder u.children)
        (t.root :: preorder t.children) (preorder F)
      exact hswap
  | trans _ _ ih ih' => exact ih.trans ih'

/-- From `F`, executing `log` leaves `G`. -/
inductive Unfolds (F : Forest α) : List α → Forest α → Prop
  | nil {G : Forest α} (h : F.Perm G) : Unfolds F [] G
  | snoc {G H K : Forest α} {log : List α} {o : RoseTree α} (h : Unfolds F log G)
      (hroot : G.Perm (o :: K)) (hchildren : H.Perm (o.children ++ K)) :
      Unfolds F (log ++ [o.root]) H

theorem Unfolds.perm (h : Unfolds F log G) (hGH : G.Perm H) : Unfolds F log H := by
  cases h with
  | nil h => exact .nil (h.trans hGH)
  | snoc h hroot hchildren => exact .snoc h hroot (hGH.symm.trans hchildren)

/-- One more tree to execute. -/
theorem Unfolds.add (h : Unfolds F log G) (o : RoseTree α) : Unfolds (F ++ [o]) log (G ++ [o]) := by
  induction h with
  | nil h => exact .nil (h.append_right _)
  | @snoc G H K log p _ hroot hchildren ih =>
      refine .snoc (K := K ++ [o]) ih (hroot.append_right _) ?_
      rw [← List.append_assoc]
      exact hchildren.append_right _

/-- What has been executed and what is still to do are the nodes of the forest. -/
theorem Unfolds.preorder_perm (h : Unfolds F log G) :
    (log ++ G.preorder).Perm F.preorder := by
  induction h with
  | nil h => exact (preorder_perm_of_perm h).symm
  | @snoc G H K log o _ hroot hchildren ih =>
      have hG := preorder_perm_of_perm hroot
      have hH := preorder_perm_of_perm hchildren
      rw [preorder_cons, ← preorder_append] at hG
      rw [List.append_assoc]
      refine List.Perm.trans ?_ ih
      exact ((hH.cons o.root).trans hG.symm).append_left log

end Forest
end Lib
end DocaStdexec
