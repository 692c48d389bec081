import DocaStdexec.Lib.Store

/-!
# Resources with one owner

The objects of a `Store` may each hold one resource, `key x = some r`.  A store is
`Balanced` when a resource that is owed, say one that is still open, is held by
exactly one live object, and any other resource by none.  The rules follow the
operations of handle classes: construct, take a resource, drop it, destroy, and
move it from one object to another.
-/

namespace DocaStdexec
namespace Lib

variable {α ι : Type*} [DecidableEq ι]

/-- Whether the object holds the resource, as a number. -/
def hold (key : α → Option ι) (r : ι) (x : α) : Nat := if key x = some r then 1 else 0

/-- Every resource that is owed has exactly one holder, and no other has any. -/
structure Balanced (st : Store α) (key : α → Option ι) (owed : ι → Prop) : Prop where
  once : ∀ r, owed r → st.tally (hold key r) = 1
  never : ∀ r, ¬owed r → st.tally (hold key r) = 0

namespace Balanced

variable {st : Store α} {key : α → Option ι} {owed owed' : ι → Prop} {x y : α} {r : ι} {i j : Nat}

theorem hold_of_eq (h : key x = some r) : hold key r x = 1 := if_pos h

theorem hold_of_ne (h : key x ≠ some r) : hold key r x = 0 := if_neg h

theorem hold_none (h : key x = none) (r : ι) : hold key r x = 0 := hold_of_ne (by simp [h])

theorem hold_congr (h : key x = key y) (r : ι) : hold key r x = hold key r y := by
  rw [hold, h, hold]

/-- No object has been constructed. -/
theorem nil (h : ∀ r, ¬owed r) : Balanced ([] : Store α) key owed :=
  ⟨fun r hr => absurd hr (h r), fun _ _ => rfl⟩

theorem congr (h : Balanced st key owed) (howed : ∀ r, owed r ↔ owed' r) :
    Balanced st key owed' :=
  ⟨fun r hr => h.once r ((howed r).mpr hr), fun r hr => h.never r (hr ∘ (howed r).mp)⟩

/-- The number of holders tells what is owed. -/
theorem of_tally_eq {st' : Store α} (h : Balanced st key owed)
    (hsame : ∀ r, st'.tally (hold key r) = st.tally (hold key r)) : Balanced st' key owed :=
  ⟨fun r hr => (hsame r).trans (h.once r hr), fun r hr => (hsame r).trans (h.never r hr)⟩

theorem tally_le_one (h : Balanced st key owed) (r : ι) : st.tally (hold key r) ≤ 1 := by
  by_cases hr : owed r
  · exact Nat.le_of_eq (h.once r hr)
  · rw [h.never r hr]
    exact Nat.zero_le 1

/-- What is held is owed. -/
theorem owed_of_live (h : Balanced st key owed) (hi : st.live i = some x)
    (hx : key x = some r) : owed r := by
  by_contra hr
  have hpos := Store.le_tally hi (hold key r)
  rw [h.never r hr, hold_of_eq hx] at hpos
  omega

/-- What is owed is held. -/
theorem exists_live (h : Balanced st key owed) (hr : owed r) :
    ∃ i x, st.live i = some x ∧ key x = some r := by
  have honce := h.once r hr
  obtain ⟨i, x, hi, hx⟩ := Store.tally_pos_iff.mp (show 0 < st.tally (hold key r) by omega)
  refine ⟨i, x, hi, ?_⟩
  by_contra hne
  rw [hold_of_ne hne] at hx
  omega

/-- Two holders of one resource are one object. -/
theorem unique (h : Balanced st key owed) (hi : st.live i = some x) (hj : st.live j = some y)
    (hx : key x = some r) (hy : key y = some r) : j = i := by
  by_contra hij
  have htwo := Store.add_le_tally hi hj hij (hold key r)
  rw [hold_of_eq hx, hold_of_eq hy] at htwo
  have hone := h.tally_le_one r
  omega

/-! ## Constructing -/

theorem create_keep (h : Balanced st key owed) (hx : key x = none) :
    Balanced (st.create x) key owed := by
  refine h.of_tally_eq fun s => ?_
  rw [Store.tally_create, hold_none hx]
  rfl

theorem create_take (h : Balanced st key owed) (hx : key x = some r) (hr : ¬owed r) :
    Balanced (st.create x) key fun s => owed s ∨ s = r := by
  have hzero := h.never r hr
  constructor
  · intro s hs
    rw [Store.tally_create]
    rcases hs with hs | rfl
    · have hne : s ≠ r := fun hsr => hr (hsr ▸ hs)
      rw [h.once s hs, hold_of_ne (by simp [hx, hne.symm])]
    · rw [hzero, hold_of_eq hx]
  · intro s hs
    obtain ⟨hs, hne⟩ := not_or.mp hs
    rw [Store.tally_create, h.never s hs, hold_of_ne (by simp [hx, Ne.symm hne])]

/-! ## Changing or destroying one object -/

/-- The object goes on holding what it holds. -/
theorem assign_keep (h : Balanced st key owed) (hi : st.live i = some y) (hx : key x = key y) :
    Balanced (st.assign i x) key owed := by
  refine h.of_tally_eq fun s => ?_
  have hcount := Store.tally_assign hi x (hold key s)
  rw [hold_congr hx] at hcount
  omega

theorem destroy_keep (h : Balanced st key owed) (hi : st.live i = some y) (hy : key y = none) :
    Balanced (st.destroy i) key owed := by
  refine h.of_tally_eq fun s => ?_
  have hcount := Store.tally_destroy hi (hold key s)
  rw [hold_none hy] at hcount
  omega

/-- The holder of `r` lets go of it. -/
theorem assign_drop (h : Balanced st key owed) (hi : st.live i = some y) (hy : key y = some r)
    (hx : key x = none) : Balanced (st.assign i x) key fun s => owed s ∧ s ≠ r := by
  have hcount (s : ι) :
      (st.assign i x).tally (hold key s) + hold key s y = st.tally (hold key s) := by
    rw [Store.tally_assign hi x (hold key s), hold_none hx]
    rfl
  constructor
  · rintro s ⟨hs, hne⟩
    have hsame := hcount s
    rw [h.once s hs, hold_of_ne (by simp [hy, Ne.symm hne])] at hsame
    omega
  · intro s hs
    have hsame := hcount s
    by_cases hsr : s = r
    · subst hsr
      rw [h.once s (h.owed_of_live hi hy), hold_of_eq hy] at hsame
      omega
    · rw [h.never s (fun howed => hs ⟨howed, hsr⟩)] at hsame
      omega

theorem assign_take (h : Balanced st key owed) (hi : st.live i = some y) (hy : key y = none)
    (hx : key x = some r) (hr : ¬owed r) :
    Balanced (st.assign i x) key fun s => owed s ∨ s = r := by
  have hcount (s : ι) :
      (st.assign i x).tally (hold key s) = st.tally (hold key s) + hold key s x := by
    have hsame := Store.tally_assign hi x (hold key s)
    rw [hold_none hy] at hsame
    exact hsame
  constructor
  · intro s hs
    rw [hcount]
    rcases hs with hs | rfl
    · have hne : s ≠ r := fun hsr => hr (hsr ▸ hs)
      rw [h.once s hs, hold_of_ne (by simp [hx, hne.symm])]
    · rw [h.never s hr, hold_of_eq hx]
  · intro s hs
    obtain ⟨hs, hne⟩ := not_or.mp hs
    rw [hcount, h.never s hs, hold_of_ne (by simp [hx, Ne.symm hne])]

/-! ## Moving -/

/-- A new object takes over what `j` holds, and `j` is left with `e`. -/
theorem move_create {e : α} (h : Balanced st key owed) (hj : st.live j = some y)
    (hx : key x = key y) (he : key e = none) :
    Balanced ((st.create x).assign j e) key owed := by
  refine h.of_tally_eq fun s => ?_
  have hcount := Store.tally_assign (Store.live_create_of_live hj x) e (hold key s)
  rw [Store.tally_create, hold_none he, hold_congr hx] at hcount
  omega

/-- An object that holds nothing takes over what `j` holds, and `j` is left with
`e`. -/
theorem move_assign {e z : α} (h : Balanced st key owed) (hi : st.live i = some z)
    (hj : st.live j = some y) (hij : j ≠ i) (hz : key z = none) (hx : key x = key y)
    (he : key e = none) : Balanced ((st.assign i x).assign j e) key owed := by
  refine h.of_tally_eq fun s => ?_
  have hj' : (st.assign i x).live j = some y := Store.live_assign_of_ne hi hj hij x
  have hfirst := Store.tally_assign hi x (hold key s)
  have hsecond := Store.tally_assign hj' e (hold key s)
  rw [hold_none hz, hold_congr hx] at hfirst
  rw [hold_none he] at hsecond
  omega

end Balanced
end Lib
end DocaStdexec
