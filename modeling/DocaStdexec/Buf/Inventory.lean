import Mathlib.Data.Finset.Card
import Mathlib.Logic.Function.Basic

/-!
# The elements of a `doca_buf_inventory`

What the wrappers rely on: an inventory hands out a free element with reference
count 1, `doca_buf_inc_refcount` adds one, `doca_buf_dec_refcount` subtracts one
and returns the element at 0.  A call on an element that has been returned, or
was never handed out, is recorded as a fault.

`Books o d` relates an inventory to the owners that a program believes each
element to have: `d` counts the owners that were made without taking a
reference.  As long as there are none, the counts are exact and no call faults.
-/

namespace DocaStdexec
namespace Buffers

/-- The reference counts, the elements that can be handed out, and whether an
element that nobody holds has been used. -/
structure Inventory (π : Type*) where
  refcount : π → Nat
  free : Finset π
  fault : Bool

namespace Inventory

variable {π : Type*}

/-- A started inventory of the given elements. -/
def started (elements : Finset π) : Inventory π := ⟨fun _ => 0, elements, false⟩

/-- A call that reads or writes the element `p`. -/
def touch (inv : Inventory π) (p : π) : Inventory π :=
  { inv with fault := inv.fault || inv.refcount p == 0 }

/-- Every element `p` has `o p` owners, of which `d p` hold no reference. -/
structure Ledger (elements : Finset π) (inv : Inventory π) (o d : π → Nat) : Prop where
  count : ∀ p, inv.refcount p + d p = o p
  free : ∀ p, p ∈ inv.free ↔ p ∈ elements ∧ inv.refcount p = 0
  owned : ∀ p, 0 < inv.refcount p → p ∈ elements

/-- The ledger holds until the first fault, and there is none while every owner
holds a reference. -/
structure Books (elements : Finset π) (inv : Inventory π) (o d : π → Nat) : Prop where
  fault : (∀ p, d p = 0) → inv.fault = false
  ledger : inv.fault = false → Ledger elements inv o d

variable {elements : Finset π} {inv : Inventory π} {o o' d d' : π → Nat} {p : π}

theorem books_started : Books elements (started elements) (fun _ => 0) (fun _ => 0) :=
  ⟨fun _ => rfl, fun _ => ⟨fun _ => rfl, fun p => by simp [started], fun p hp => by
    simp [started] at hp⟩⟩

/-- An owner that holds a reference keeps its element in use. -/
theorem Books.refcount_pos (h : Books elements inv o d) (hd : ∀ p, d p = 0) (hp : 0 < o p) :
    0 < inv.refcount p := by
  have hcount := (h.ledger (h.fault hd)).count p
  rw [hd p] at hcount
  omega

theorem touch_fault : (inv.touch p).fault = false ↔ inv.fault = false ∧ 0 < inv.refcount p := by
  simp [touch, Nat.pos_iff_ne_zero]

/-- Reading an element that has an owner. -/
theorem Books.touch (h : Books elements inv o d) (hp : 0 < o p) :
    Books elements (inv.touch p) o d := by
  refine ⟨fun hd => touch_fault.mpr ⟨h.fault hd, h.refcount_pos hd hp⟩, fun hfault => ?_⟩
  obtain ⟨hcount, hfree, howned⟩ := h.ledger (touch_fault.mp hfault).1
  exact ⟨hcount, hfree, howned⟩

/-- The owners may be counted in another way. -/
theorem Books.congr (h : Books elements inv o d) (ho : ∀ q, o' q = o q) :
    Books elements inv o' d := by
  obtain rfl : o' = o := funext ho
  exact h

/-- With exact counts the free elements are the ones without an owner. -/
theorem Books.free_iff (h : Books elements inv o fun _ => 0) (hp : p ∈ elements) :
    p ∈ inv.free ↔ o p = 0 := by
  obtain ⟨hcount, hfree, -⟩ := h.ledger (h.fault fun _ => rfl)
  rw [hfree, ← hcount p]
  simp [hp]

/-- With exact counts the free elements are all but the owned ones. -/
theorem Books.card_free (h : Books elements inv o fun _ => 0) :
    inv.free.card = elements.card - (elements.filter fun p => o p ≠ 0).card := by
  obtain ⟨hcount, hfree, -⟩ := h.ledger (h.fault fun _ => rfl)
  have hsplit : inv.free = elements.filter fun p => o p = 0 := by
    ext p
    rw [hfree, Finset.mem_filter, ← hcount p]
    simp
  have hcard := Finset.card_filter_add_card_filter_not (s := elements) fun p => o p = 0
  rw [hsplit]
  simp only [ne_eq]
  omega

section Calls

variable [DecidableEq π]

/-- `doca_buf_inventory_buf_get_by_addr` and its siblings, when they hand out
the element `p`. -/
def bufGet (inv : Inventory π) (p : π) : Option (Inventory π) :=
  if p ∈ inv.free then
    some { inv with
      refcount := Function.update inv.refcount p 1
      free := inv.free.erase p }
  else none

/-- `doca_buf_inc_refcount`. -/
def incRefcount (inv : Inventory π) (p : π) : Inventory π :=
  { inv.touch p with refcount := Function.update inv.refcount p (inv.refcount p + 1) }

/-- `doca_buf_dec_refcount`. -/
def decRefcount (inv : Inventory π) (p : π) : Inventory π :=
  { inv.touch p with
    refcount := Function.update inv.refcount p (inv.refcount p - 1)
    free := if inv.refcount p - 1 = 0 then insert p inv.free else inv.free }

/-- An element is handed out to its first owner. -/
theorem Books.bufGet {inv' : Inventory π} (h : Books elements inv o d)
    (hget : inv.bufGet p = some inv') (ho : ∀ q, o' q = o q + if p = q then 1 else 0) :
    Books elements inv' o' d := by
  obtain ⟨hp, hsome⟩ := Option.ite_none_right_eq_some.mp hget
  obtain rfl := Option.some.inj hsome
  refine ⟨h.fault, fun hfault => ?_⟩
  obtain ⟨hcount, hfree, howned⟩ := h.ledger hfault
  obtain ⟨hmem, hzero⟩ := (hfree p).mp hp
  refine ⟨fun q => ?_, fun q => ?_, fun q hq => ?_⟩
  · have hq := hcount q
    by_cases hpq : q = p
    · subst hpq
      simp only [Function.update_self, ho, if_true]
      omega
    · simp only [Function.update_of_ne hpq, ho, if_neg (Ne.symm hpq)]
      omega
  · by_cases hpq : q = p
    · simp [hpq]
    · simp [hpq, hfree]
  · by_cases hpq : q = p
    · exact hpq ▸ hmem
    · exact howned q (by simpa [hpq] using hq)

/-- A new owner takes a reference to an element that has one. -/
theorem Books.incRefcount (h : Books elements inv o d) (hp : 0 < o p)
    (ho : ∀ q, o' q = o q + if p = q then 1 else 0) :
    Books elements (inv.incRefcount p) o' d := by
  refine ⟨(h.touch hp).fault, fun hfault => ?_⟩
  obtain ⟨hsafe, hpos⟩ := touch_fault.mp hfault
  obtain ⟨hcount, hfree, howned⟩ := h.ledger hsafe
  refine ⟨fun q => ?_, fun q => ?_, fun q hq => ?_⟩
  · have hq := hcount q
    by_cases hpq : q = p
    · subst hpq
      simp only [Inventory.incRefcount, Function.update_self, ho, if_true]
      omega
    · simp only [Inventory.incRefcount, Function.update_of_ne hpq, ho, if_neg (Ne.symm hpq)]
      omega
  · by_cases hpq : q = p
    · subst hpq
      simp [Inventory.incRefcount, Inventory.touch, hfree, Nat.ne_of_gt hpos]
    · simp [Inventory.incRefcount, Inventory.touch, hfree, hpq]
  · by_cases hpq : q = p
    · exact hpq ▸ howned p hpos
    · exact howned q (by simpa [Inventory.incRefcount, hpq] using hq)

/-- An owner gives its reference back. -/
theorem Books.decRefcount (h : Books elements inv o d)
    (ho : ∀ q, o q = o' q + if p = q then 1 else 0) :
    Books elements (inv.decRefcount p) o' d := by
  have hp : 0 < o p := by
    rw [ho p, if_pos rfl]
    exact Nat.succ_pos _
  refine ⟨(h.touch hp).fault, fun hfault => ?_⟩
  obtain ⟨hsafe, hpos⟩ := touch_fault.mp hfault
  obtain ⟨hcount, hfree, howned⟩ := h.ledger hsafe
  refine ⟨fun q => ?_, fun q => ?_, fun q hq => ?_⟩
  · have hq := hcount q
    by_cases hpq : q = p
    · subst hpq
      rw [ho q, if_pos rfl] at hq
      simp only [Inventory.decRefcount, Function.update_self]
      omega
    · rw [ho q, if_neg (Ne.symm hpq)] at hq
      simpa [Inventory.decRefcount, hpq] using hq
  · by_cases hpq : q = p
    · subst hpq
      have hmem := howned q hpos
      simp only [Inventory.decRefcount, Inventory.touch, Function.update_self]
      split
      · next hzero => simp [hmem, hzero]
      · next hzero => simp [hfree, hzero, Nat.ne_of_gt hpos]
    · simp only [Inventory.decRefcount, Inventory.touch, Function.update_of_ne hpq]
      split <;> simp [hfree, hpq]
  · by_cases hpq : q = p
    · exact hpq ▸ howned p hpos
    · exact howned q (by simpa [Inventory.decRefcount, hpq] using hq)

/-- A new owner that takes no reference. -/
theorem Books.borrow (h : Books elements inv o d) (ho : ∀ q, o' q = o q + if p = q then 1 else 0)
    (hd : ∀ q, d' q = d q + if p = q then 1 else 0) : Books elements inv o' d' := by
  refine ⟨fun hzero => ?_, fun hfault => ?_⟩
  · have hp := hd p
    rw [hzero p, if_pos rfl] at hp
    omega
  · obtain ⟨hcount, hfree, howned⟩ := h.ledger hfault
    refine ⟨fun q => ?_, hfree, howned⟩
    rw [ho q, hd q, ← hcount q]
    omega

end Calls
end Inventory
end Buffers
end DocaStdexec
