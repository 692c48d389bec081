import Mathlib.Data.List.Basic

/-!
# Objects with a lifetime

A `Store` holds the objects that a program has created.  An object is named by
its position; a destroyed one keeps its position and holds nothing.  `tally w`
adds up a weight over the live objects, such as how many of them point to a given
resource, and the lemmas say how each operation changes it.
-/

namespace DocaStdexec
namespace Lib

/-- The objects created so far; `none` stands for a destroyed one. -/
abbrev Store (α : Type*) := List (Option α)

namespace Store

variable {α : Type*}

/-- The object at a position, when it exists and is alive. -/
def live (st : Store α) (i : Nat) : Option α := st[i]?.join

/-- Construct an object. -/
def create (st : Store α) (x : α) : Store α := st ++ [some x]

/-- Change an object's value. -/
def assign (st : Store α) (i : Nat) (x : α) : Store α := st.set i (some x)

/-- End an object's lifetime. -/
def destroy (st : Store α) (i : Nat) : Store α := st.set i none

/-- The sum of a weight over the live objects. -/
def tally (st : Store α) (w : α → Nat) : Nat :=
  match st with
  | [] => 0
  | o :: st => (o.map w).getD 0 + tally st w

theorem live_eq_some {st : Store α} {i : Nat} {x : α} :
    st.live i = some x ↔ st[i]? = some (some x) := Option.join_eq_some_iff

theorem lt_length_of_live {st : Store α} {i : Nat} {x : α} (h : st.live i = some x) :
    i < st.length :=
  (List.getElem?_eq_some_iff.mp (live_eq_some.mp h)).1

/-- A constructed object is alive, at the end of the store. -/
theorem live_create (st : Store α) (x : α) : (st.create x).live st.length = some x := by
  simp [live, create]

theorem live_create_of_live {st : Store α} {i : Nat} {y : α} (h : st.live i = some y) (x : α) :
    (st.create x).live i = some y := by
  have hi := lt_length_of_live h
  simpa [live, create, List.getElem?_append_left hi] using h

/-- An entry of a list that has grown by one. -/
theorem getElem?_concat_iff {β : Type*} {l : List β} {a b : β} {n : Nat} :
    (l ++ [a])[n]? = some b ↔ l[n]? = some b ∨ n = l.length ∧ a = b := by
  rcases Nat.lt_trichotomy n l.length with hn | rfl | hn
  · simp [List.getElem?_append_left hn, Nat.ne_of_lt hn]
  · simp
  · have hout : (l ++ [a])[n]? = none := by
      refine List.getElem?_eq_none ?_
      rwa [List.length_append, List.length_singleton]
    simp [hout, List.getElem?_eq_none (Nat.le_of_lt hn), Nat.ne_of_gt hn]

/-- A live object is an older one or the one that was just constructed. -/
theorem live_create_iff {st : Store α} {i : Nat} {x y : α} :
    (st.create x).live i = some y ↔ st.live i = some y ∨ i = st.length ∧ x = y := by
  rw [live_eq_some, live_eq_some, create, getElem?_concat_iff, Option.some.injEq]

theorem live_append_right (st st' : Store α) (i : Nat) :
    Store.live (st ++ st') (st.length + i) = st'.live i := by
  simp [live, List.getElem?_append_right]

theorem live_assign {st : Store α} {i : Nat} {y : α} (h : st.live i = some y) (x : α) (j : Nat) :
    (st.assign i x).live j = if j = i then some x else st.live j := by
  have hi := lt_length_of_live h
  by_cases hj : j = i
  · subst hj
    simp [live, assign, hi]
  · simp [live, assign, hj, List.getElem?_set_ne (Ne.symm hj)]

theorem live_assign_self {st : Store α} {i : Nat} {y : α} (h : st.live i = some y) (x : α) :
    (st.assign i x).live i = some x := by
  rw [live_assign h, if_pos rfl]

theorem live_assign_of_ne {st : Store α} {i j : Nat} {y z : α} (h : st.live i = some y)
    (hj : st.live j = some z) (hij : j ≠ i) (x : α) : (st.assign i x).live j = some z := by
  rw [live_assign h, if_neg hij, hj]

/-- What is live after an assignment is the new value or was live before. -/
theorem live_assign_cases {st : Store α} {i j : Nat} {x y z : α} (h : st.live i = some y)
    (hj : (st.assign i x).live j = some z) : j = i ∧ z = x ∨ j ≠ i ∧ st.live j = some z := by
  rw [live_assign h] at hj
  split at hj
  · next hji => exact .inl ⟨hji, (Option.some.inj hj).symm⟩
  · next hji => exact .inr ⟨hji, hj⟩

/-- An entry of a list with one entry replaced. -/
theorem getElem?_set_cases {β : Type*} {l : List β} {a b : β} {m n : Nat}
    (h : (l.set n a)[m]? = some b) : m = n ∧ b = a ∨ m ≠ n ∧ l[m]? = some b := by
  rw [List.getElem?_set] at h
  split at h
  · next hnm =>
      split at h
      · exact .inl ⟨hnm.symm, (Option.some.inj h).symm⟩
      · simp at h
  · next hnm => exact .inr ⟨Ne.symm hnm, h⟩

/-- An entry of a list with one entry changed. -/
theorem getElem?_modify_cases {β : Type*} {l : List β} {f : β → β} {b : β} {m n : Nat}
    (h : (l.modify n f)[m]? = some b) :
    ∃ a, l[m]? = some a ∧ (n = m ∧ b = f a ∨ n ≠ m ∧ b = a) := by
  rw [List.getElem?_modify] at h
  obtain ⟨a, ha, rfl⟩ := Option.map_eq_some_iff.mp h
  by_cases hnm : n = m
  · exact ⟨a, ha, .inl ⟨hnm, if_pos hnm⟩⟩
  · exact ⟨a, ha, .inr ⟨hnm, if_neg hnm⟩⟩

/-- Assigning an object's own value changes nothing. -/
theorem assign_self {st : Store α} {i : Nat} {x : α} (h : st.live i = some x) :
    st.assign i x = st := by
  obtain ⟨hi, hx⟩ := List.getElem?_eq_some_iff.mp (live_eq_some.mp h)
  rw [assign, ← hx, List.set_getElem_self]

theorem assign_assign (st : Store α) (i : Nat) (x y : α) :
    (st.assign i x).assign i y = st.assign i y := List.set_set ..

theorem destroy_assign (st : Store α) (i : Nat) (x : α) :
    (st.assign i x).destroy i = st.destroy i := List.set_set ..

theorem live_destroy (st : Store α) (i j : Nat) :
    (st.destroy i).live j = if j = i then none else st.live j := by
  by_cases hj : j = i
  · subst hj
    by_cases hi : j < st.length
    · simp [live, destroy, hi]
    · simp [live, destroy, hi]
  · simp [live, destroy, hj, List.getElem?_set_ne (Ne.symm hj)]

/-- What is live after a destruction was live before. -/
theorem live_of_live_destroy {st : Store α} {i j : Nat} {x : α}
    (h : (st.destroy i).live j = some x) : st.live j = some x := by
  rw [live_destroy] at h
  split at h
  · cases h
  · exact h

/-! ## What all live objects satisfy -/

section
variable {st : Store α} {P : α → Prop} {i : Nat} {x y : α}

theorem forall_live_create (h : ∀ j z, st.live j = some z → P z) (hx : P x) :
    ∀ j z, (st.create x).live j = some z → P z := by
  intro j z hj
  rcases live_create_iff.mp hj with hj | ⟨-, rfl⟩
  · exact h j z hj
  · exact hx

theorem forall_live_assign (h : ∀ j z, st.live j = some z → P z) (hi : st.live i = some y)
    (hx : P x) : ∀ j z, (st.assign i x).live j = some z → P z := by
  intro j z hj
  rcases live_assign_cases hi hj with ⟨-, rfl⟩ | ⟨-, hj⟩
  · exact hx
  · exact h j z hj

end

@[simp] theorem tally_append (st st' : Store α) (w : α → Nat) :
    Store.tally (st ++ st') w = st.tally w + st'.tally w := by
  induction st with
  | nil => simp [tally]
  | cons o st ih =>
      simp only [List.cons_append, tally, ih]
      omega

@[simp] theorem tally_create (st : Store α) (x : α) (w : α → Nat) :
    (st.create x).tally w = st.tally w + w x := by
  simp [tally, create]

/-- Replacing one entry exchanges its weight. -/
theorem tally_set {st : Store α} {i : Nat} {y : α} (h : st.live i = some y) (o : Option α)
    (w : α → Nat) :
    Store.tally (st.set i o) w + w y = st.tally w + (o.map w).getD 0 := by
  induction st generalizing i with
  | nil => simp [live] at h
  | cons a st ih =>
      cases i with
      | zero =>
          obtain rfl : a = some y := by simpa [live] using h
          simp only [List.set_cons_zero, tally, Option.map_some, Option.getD_some]
          omega
      | succ i =>
          have hrest := ih (i := i) (by simpa [live] using h)
          simp only [List.set_cons_succ, tally]
          omega

theorem tally_assign {st : Store α} {i : Nat} {y : α} (h : st.live i = some y) (x : α)
    (w : α → Nat) : (st.assign i x).tally w + w y = st.tally w + w x :=
  tally_set h (some x) w

theorem tally_destroy {st : Store α} {i : Nat} {y : α} (h : st.live i = some y) (w : α → Nat) :
    (st.destroy i).tally w + w y = st.tally w :=
  tally_set h none w

theorem le_tally {st : Store α} {i : Nat} {x : α} (h : st.live i = some x) (w : α → Nat) :
    w x ≤ st.tally w := by
  have hdestroy := tally_destroy h w
  omega

/-- Two live objects both count. -/
theorem add_le_tally {st : Store α} {i j : Nat} {x y : α} (hi : st.live i = some x)
    (hj : st.live j = some y) (hij : j ≠ i) (w : α → Nat) : w x + w y ≤ st.tally w := by
  have hdestroy := tally_destroy hi w
  have hj' : (st.destroy i).live j = some y := by rw [live_destroy, if_neg hij, hj]
  have hleft := le_tally hj' w
  omega

/-- The weight of a store is that of its live objects. -/
theorem tally_eq_zero {st : Store α} {w : α → Nat} (h : ∀ i x, st.live i = some x → w x = 0) :
    st.tally w = 0 := by
  induction st with
  | nil => rfl
  | cons a st ih =>
      have hrest := ih fun i x hi => h (i + 1) x (by simpa [live] using hi)
      have hfirst : (a.map w).getD 0 = 0 := by
        cases a with
        | none => rfl
        | some x => exact h 0 x (by simp [live])
      simpa [tally, hfirst] using hrest

theorem tally_pos_iff {st : Store α} {w : α → Nat} :
    0 < st.tally w ↔ ∃ i x, st.live i = some x ∧ 0 < w x := by
  constructor
  · intro hpos
    by_contra hnone
    have hzero : st.tally w = 0 := tally_eq_zero fun i x hi => by
      by_contra hx
      exact hnone ⟨i, x, hi, Nat.pos_of_ne_zero hx⟩
    omega
  · rintro ⟨i, x, hi, hx⟩
    exact Nat.lt_of_lt_of_le hx (le_tally hi w)

end Store
end Lib
end DocaStdexec
