import Mathlib.Data.List.Nodup
import Mathlib.Logic.Function.Basic

/-!
# Chains of links

`Linked next p xs q` says that following `next` from `p` visits exactly the
list `xs`, in order, and then arrives at `q`.  It is the shape predicate of a
singly linked list; with `q = p` it is the shape of a circular one.

The two rules below are the ones a list operation needs.  A write outside the
chain keeps it (the frame rule), and a write to the last cell redirects the end
of the chain and nothing else.
-/

namespace DocaStdexec
namespace Lib

variable {α : Type*}

/-- Following `next` from `p` visits `xs` and then arrives at `q`. -/
def Linked (next : α → α) : α → List α → α → Prop
  | p, [], q => next p = q
  | p, x :: xs, q => next p = x ∧ Linked next x xs q

namespace Linked

variable {next : α → α} {p q : α} {xs : List α}

@[simp] theorem nil_iff : Linked next p [] q ↔ next p = q := Iff.rfl

@[simp] theorem cons_iff {x : α} :
    Linked next p (x :: xs) q ↔ next p = x ∧ Linked next x xs q := Iff.rfl

/-- A chain may be cut at any cell that it visits. -/
theorem append_cons_iff {ys : List α} {y : α} :
    Linked next p (xs ++ y :: ys) q ↔ Linked next p xs y ∧ Linked next y ys q := by
  induction xs generalizing p with
  | nil => simp
  | cons x xs ih => simp [ih, and_assoc]

/-- Every link of a chain leads to a cell of the chain or to its end. -/
theorem next_mem (h : Linked next p xs q) {x : α} (hx : x ∈ p :: xs) :
    next x ∈ xs ∨ next x = q := by
  induction xs generalizing p with
  | nil =>
      obtain rfl : x = p := by simpa using hx
      exact Or.inr h
  | cons y ys ih =>
      obtain ⟨hnext, hrest⟩ := h
      rcases List.mem_cons.mp hx with rfl | hx
      · exact Or.inl (by simp [hnext])
      · rcases ih hrest hx with hmem | hend
        · exact Or.inl (List.mem_cons_of_mem _ hmem)
        · exact Or.inr hend

variable [DecidableEq α]

/-- The frame rule: a write to a cell outside the chain keeps the chain. -/
theorem update_of_notMem {a b : α} (ha : a ∉ p :: xs) :
    Linked (Function.update next a b) p xs q ↔ Linked next p xs q := by
  induction xs generalizing p with
  | nil =>
      have hp : p ≠ a := fun h => ha (by simp [h])
      simp [Function.update_of_ne hp]
  | cons x xs ih =>
      have hp : p ≠ a := fun h => ha (by simp [h])
      have hrest : a ∉ x :: xs := fun h => ha (List.mem_cons_of_mem _ h)
      simp [Function.update_of_ne hp, ih hrest]

/-- A write to the last cell of a chain without repetition redirects the end of
the chain. -/
theorem update_last (h : Linked next p xs q) (hnodup : (p :: xs).Nodup) (b : α) :
    Linked (Function.update next (xs.getLastD p) b) p xs b := by
  induction xs generalizing p with
  | nil => simp
  | cons x xs ih =>
      obtain ⟨hnext, hrest⟩ := h
      rw [List.getLastD_cons]
      have hmem : xs.getLastD x ∈ x :: xs := List.getLastD_mem_cons
      have hp : p ≠ xs.getLastD x := by
        rintro rfl
        exact (List.nodup_cons.mp hnodup).1 hmem
      refine ⟨?_, ih hrest (List.nodup_cons.mp hnodup).2⟩
      rw [Function.update_of_ne hp, hnext]

/-- Appending a cell: the last link is written to lead to `b`, and `b` already
leads to `q`. -/
theorem snoc (h : Linked next p xs q) (hnodup : (p :: xs).Nodup) {b r : α}
    (hb : b ∉ p :: xs) (hend : next b = r) :
    Linked (Function.update next (xs.getLastD p) b) p (xs ++ [b]) r := by
  refine append_cons_iff.mpr ⟨h.update_last hnodup b, ?_⟩
  have hne : b ≠ xs.getLastD p := by
    rintro rfl
    exact hb List.getLastD_mem_cons
  change Function.update next (xs.getLastD p) b b = r
  rw [Function.update_of_ne hne, hend]

end Linked
end Lib
end DocaStdexec
