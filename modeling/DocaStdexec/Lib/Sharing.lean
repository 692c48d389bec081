import DocaStdexec.Lib.Store

/-!
# Resources with any number of owners

An object of a `Store` owns a resource `r` so and so many times, `owns r x`, and `limbo`
lists pointers that no object contains any more but that have not been destroyed yet.
The resources are `Shared` when exactly those are kept that still have an owner.  The rules
follow what a counting pointer can do: take a fresh resource, be copied, be passed on, and
be destroyed, which drops the resource with its last owner.
-/

namespace DocaStdexec
namespace Lib

variable {α ι : Type*} [DecidableEq ι]

/-- The number of owners. -/
def owners (st : Store α) (owns : ι → α → Nat) (limbo : List ι) (r : ι) : Nat :=
  st.tally (owns r) + limbo.count r

/-- A resource is kept exactly as long as it has an owner. -/
def Shared (st : Store α) (owns : ι → α → Nat) (limbo : List ι) (kept : ι → Prop) : Prop :=
  ∀ r, kept r ↔ 0 < owners st owns limbo r

namespace Shared

variable {st st' : Store α} {owns : ι → α → Nat} {limbo limbo' : List ι} {kept kept' : ι → Prop}
  {r : ι}

theorem nil (h : ∀ r, ¬kept r) : Shared ([] : Store α) owns [] kept :=
  fun r => ⟨fun hr => absurd hr (h r), fun hr => absurd hr (Nat.lt_irrefl 0)⟩

theorem congr (h : Shared st owns limbo kept) (hkept : ∀ r, kept' r ↔ kept r) :
    Shared st owns limbo kept' :=
  fun r => (hkept r).trans (h r)

/-- Pointers are passed on. -/
theorem of_owners_eq (h : Shared st owns limbo kept)
    (hsame : ∀ r, owners st' owns limbo' r = owners st owns limbo r) :
    Shared st' owns limbo' kept := by
  intro r
  rw [hsame]
  exact h r

/-- Pointers to resources that are kept are copied. -/
theorem copy (h : Shared st owns limbo kept) (more : ι → Nat)
    (hmore : ∀ r, owners st' owns limbo' r = owners st owns limbo r + more r)
    (hkept : ∀ r, 0 < more r → kept r) : Shared st' owns limbo' kept := by
  intro r
  rw [hmore]
  constructor
  · intro hr
    exact Nat.add_pos_left ((h r).mp hr) _
  · intro hpos
    rcases Nat.eq_zero_or_pos (more r) with hzero | hnew
    · exact (h r).mpr (by omega)
    · exact hkept r hnew

/-- A fresh resource gets its first owner. -/
theorem fresh (h : Shared st owns limbo kept)
    (hnew : ∀ s, owners st' owns limbo' s = owners st owns limbo s + if s = r then 1 else 0) :
    Shared st' owns limbo' fun s => kept s ∨ s = r := by
  intro s
  rw [hnew]
  by_cases hs : s = r
  · simp [hs]
  · simpa [hs] using h s

/-- A pointer in limbo is destroyed, and drops the resource when it was the last owner. -/
theorem drop (h : Shared st owns (r :: limbo) kept) :
    Shared st owns limbo fun s => kept s ∧ (s = r → 0 < owners st owns limbo r) := by
  intro s
  have hs := h s
  simp only [owners, List.count_cons] at hs ⊢
  by_cases hsr : s = r
  · subst hsr
    constructor
    · intro hkept
      exact hkept.2 rfl
    · intro hpos
      exact ⟨hs.mpr (by omega), fun _ => hpos⟩
  · have hne : (r == s) = false := by simpa using Ne.symm hsr
    simp only [hne] at hs
    simpa [hsr] using hs

end Shared
end Lib
end DocaStdexec
