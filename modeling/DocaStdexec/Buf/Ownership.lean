import DocaStdexec.Buf.Inventory
import DocaStdexec.Lib.Machine
import DocaStdexec.Lib.Store

/-!
# `Buf`: a counted reference to an inventory element

The special members of `Buf` as they stand in the source, and a program that
applies them, in any order, to any number of `Buf` objects.  An owner of an
element is a live `Buf` that holds it, a released pointer that has not been
wrapped again, or an `inc_refcount` without its `dec_refcount`.

The invariant is that the inventory's books agree with these owners.
-/

namespace DocaStdexec
namespace Buffers

open Lib

/-- The wrapped `doca_buf`, or a null pointer. -/
structure Buf (π : Type*) where
  buf_ : Option π
  deriving DecidableEq

namespace Buf

variable {π : Type*} [DecidableEq π]

/-- How often the `Buf` owns the element `q`. -/
def weight (b : Buf π) (q : π) : Nat := if b.buf_ = some q then 1 else 0

/-- `Buf()`. -/
def invalid : Buf π := ⟨none⟩

@[simp] theorem weight_invalid (q : π) : (invalid : Buf π).weight q = 0 := rfl

theorem weight_some (p q : π) : (⟨some p⟩ : Buf π).weight q = if p = q then 1 else 0 := by
  simp [weight]

theorem ite_eq_weight (b : Buf π) (q : π) :
    (if b.buf_ = some q then 1 else 0) = b.weight q := rfl

/-- `cleanup`. -/
def cleanup (this : Buf π) (inv : Inventory π) : Inventory π × Buf π :=
  match this.buf_ with
  | some p => (inv.decRefcount p, invalid)
  | none => (inv, invalid)

/-- `Buf(const Buf&)`. -/
def copy (other : Buf π) (inv : Inventory π) : Inventory π × Buf π :=
  match other.buf_ with
  | some p => (inv.incRefcount p, other)
  | none => (inv, other)

/-- `operator=(const Buf&)` between two objects. -/
def copyAssign (this other : Buf π) (inv : Inventory π) : Inventory π × Buf π :=
  other.copy (this.cleanup inv).1

/-- `Buf(Buf&&)`: the new object and what is left of the other. -/
def move (other : Buf π) : Buf π × Buf π := (other, invalid)

/-- `operator=(Buf&&)` between two objects. -/
def moveAssign (this other : Buf π) (inv : Inventory π) : Inventory π × Buf π × Buf π :=
  ((this.cleanup inv).1, other.move)

@[simp] theorem copy_snd (other : Buf π) (inv : Inventory π) : (other.copy inv).2 = other := by
  unfold copy
  split <;> rfl

end Buf

namespace Inventory

variable {π : Type*} [DecidableEq π] {elements : Finset π} {inv : Inventory π} {o o' d : π → Nat}

theorem Books.cleanup (h : Books elements inv o d) (this : Buf π)
    (ho : ∀ q, o q = o' q + this.weight q) : Books elements (this.cleanup inv).1 o' d := by
  cases hbuf : this.buf_ with
  | none => simpa [Buf.cleanup, hbuf] using h.congr fun q => by simp [ho, Buf.weight, hbuf]
  | some p =>
      simpa [Buf.cleanup, hbuf] using
        h.decRefcount (p := p) fun q => by simp [ho, Buf.weight, hbuf]

theorem Books.copy (h : Books elements inv o d) (other : Buf π)
    (hheld : ∀ q, other.weight q ≤ o q) (ho : ∀ q, o' q = o q + other.weight q) :
    Books elements (other.copy inv).1 o' d := by
  cases hbuf : other.buf_ with
  | none => simpa [Buf.copy, hbuf] using h.congr fun q => by simp [ho, Buf.weight, hbuf]
  | some p =>
      have hp : 0 < o p := by simpa [Buf.weight, hbuf, Nat.succ_le_iff] using hheld p
      simpa [Buf.copy, hbuf] using h.incRefcount hp fun q => by simp [ho, Buf.weight, hbuf]

end Inventory

/-- The inventory, the `Buf` objects, and the two kinds of owner that are not
objects. -/
structure State (π : Type*) where
  inventory : Inventory π
  bufs : Store (Buf π)
  /-- The pointers from `release` that have not been wrapped again. -/
  released : List π
  /-- The elements of the `inc_refcount` calls without a `dec_refcount`. -/
  unmatched : List π

/-- What a program can do with `Buf` objects. -/
inductive Op (π : Type*)
  | default
  /-- `get_buffer_by_addr`, `_by_data` or `_by_args`; the inventory picks `p`. -/
  | get (p : π)
  | duplicate (src : Nat) (p : π)
  | copy (src : Nat)
  | move (src : Nat)
  | copyAssign (dst src : Nat)
  | moveAssign (dst src : Nat)
  | release (src : Nat)
  /-- `Buf(doca_buf*)` on a released pointer. -/
  | wrap (p : π)
  | incRefcount (i : Nat)
  | decRefcount (i : Nat)
  | destroy (i : Nat)
  deriving DecidableEq

section Program

variable {π : Type*} [DecidableEq π]

def State.init (elements : Finset π) : State π := ⟨.started elements, [], [], []⟩

/-- How many live `Buf` objects, released pointers and unmatched `inc_refcount`
calls own the element `p`. -/
def State.owners (s : State π) (p : π) : Nat :=
  s.bufs.tally (fun b => b.weight p) + s.released.count p + s.unmatched.count p

/-- One operation.  A call that `check_error` does not let pass ends the process,
so it is not a step. -/
def step (s : State π) : Op π → Option (State π)
  | .default => some { s with bufs := s.bufs.create .invalid }
  | .get p =>
      (s.inventory.bufGet p).map fun inv =>
        { s with inventory := inv, bufs := s.bufs.create ⟨some p⟩ }
  | .duplicate src p =>
      match s.bufs.live src with
      | some ⟨some q⟩ =>
          ((s.inventory.touch q).bufGet p).map fun inv =>
            { s with inventory := inv, bufs := s.bufs.create ⟨some p⟩ }
      | _ => none
  | .copy src =>
      (s.bufs.live src).map fun other =>
        { s with
          inventory := (other.copy s.inventory).1
          bufs := s.bufs.create (other.copy s.inventory).2 }
  | .move src =>
      (s.bufs.live src).map fun other =>
        { s with bufs := (s.bufs.assign src other.move.2).create other.move.1 }
  | .copyAssign dst src =>
      match s.bufs.live dst, s.bufs.live src with
      | some this, some other =>
          if dst = src then some s
          else
            some { s with
              inventory := (this.copyAssign other s.inventory).1
              bufs := s.bufs.assign dst (this.copyAssign other s.inventory).2 }
      | _, _ => none
  | .moveAssign dst src =>
      match s.bufs.live dst, s.bufs.live src with
      | some this, some other =>
          if dst = src then some s
          else
            some { s with
              inventory := (this.moveAssign other s.inventory).1
              bufs := (s.bufs.assign dst (this.moveAssign other s.inventory).2.1).assign src
                (this.moveAssign other s.inventory).2.2 }
      | _, _ => none
  | .release src =>
      (s.bufs.live src).map fun this =>
        { s with
          bufs := s.bufs.assign src .invalid
          released := this.buf_.toList ++ s.released }
  | .wrap p =>
      if p ∈ s.released then
        some { s with bufs := s.bufs.create ⟨some p⟩, released := s.released.erase p }
      else none
  | .incRefcount i =>
      match s.bufs.live i with
      | some ⟨some p⟩ =>
          some { s with
            inventory := s.inventory.incRefcount p
            unmatched := p :: s.unmatched }
      | _ => none
  | .decRefcount i =>
      match s.bufs.live i with
      | some ⟨some p⟩ =>
          if p ∈ s.unmatched then
            some { s with
              inventory := s.inventory.decRefcount p
              unmatched := s.unmatched.erase p }
          else none
      | _ => none
  | .destroy i =>
      (s.bufs.live i).map fun this =>
        { s with inventory := (this.cleanup s.inventory).1, bufs := s.bufs.destroy i }

/-- Programs over a started inventory of `elements`. -/
def machine (elements : Finset π) : Machine (State π) (Op π) := ⟨State.init elements, step⟩

/-- Everything an operation can do. -/
inductive Effect (s : State π) : Op π → State π → Prop
  | default : Effect s .default { s with bufs := s.bufs.create .invalid }
  | get {p : π} {inv : Inventory π} (hget : s.inventory.bufGet p = some inv) :
      Effect s (.get p) { s with inventory := inv, bufs := s.bufs.create ⟨some p⟩ }
  | duplicate {src : Nat} {p q : π} {inv : Inventory π} (hsrc : s.bufs.live src = some ⟨some q⟩)
      (hget : (s.inventory.touch q).bufGet p = some inv) :
      Effect s (.duplicate src p) { s with inventory := inv, bufs := s.bufs.create ⟨some p⟩ }
  | copy {src : Nat} {other : Buf π} (hsrc : s.bufs.live src = some other) :
      Effect s (.copy src)
        { s with inventory := (other.copy s.inventory).1, bufs := s.bufs.create other }
  | move {src : Nat} {other : Buf π} (hsrc : s.bufs.live src = some other) :
      Effect s (.move src) { s with bufs := (s.bufs.assign src .invalid).create other }
  | copySelf {i : Nat} {this : Buf π} (hi : s.bufs.live i = some this) :
      Effect s (.copyAssign i i) s
  | copyAssign {dst src : Nat} {this other : Buf π} (hdst : s.bufs.live dst = some this)
      (hsrc : s.bufs.live src = some other) (hne : src ≠ dst) :
      Effect s (.copyAssign dst src)
        { s with
          inventory := (this.copyAssign other s.inventory).1
          bufs := s.bufs.assign dst other }
  | moveSelf {i : Nat} {this : Buf π} (hi : s.bufs.live i = some this) :
      Effect s (.moveAssign i i) s
  | moveAssign {dst src : Nat} {this other : Buf π} (hdst : s.bufs.live dst = some this)
      (hsrc : s.bufs.live src = some other) (hne : src ≠ dst) :
      Effect s (.moveAssign dst src)
        { s with
          inventory := (this.cleanup s.inventory).1
          bufs := (s.bufs.assign dst other).assign src .invalid }
  | release {src : Nat} {this : Buf π} (hsrc : s.bufs.live src = some this) :
      Effect s (.release src)
        { s with
          bufs := s.bufs.assign src .invalid
          released := this.buf_.toList ++ s.released }
  | wrap {p : π} (hp : p ∈ s.released) :
      Effect s (.wrap p)
        { s with bufs := s.bufs.create ⟨some p⟩, released := s.released.erase p }
  | incRefcount {i : Nat} {p : π} (hi : s.bufs.live i = some ⟨some p⟩) :
      Effect s (.incRefcount i)
        { s with inventory := s.inventory.incRefcount p, unmatched := p :: s.unmatched }
  | decRefcount {i : Nat} {p : π} (hi : s.bufs.live i = some ⟨some p⟩) (hp : p ∈ s.unmatched) :
      Effect s (.decRefcount i)
        { s with inventory := s.inventory.decRefcount p, unmatched := s.unmatched.erase p }
  | destroy {i : Nat} {this : Buf π} (hi : s.bufs.live i = some this) :
      Effect s (.destroy i)
        { s with inventory := (this.cleanup s.inventory).1, bufs := s.bufs.destroy i }

theorem step_effect {s t : State π} {op : Op π} (hstep : step s op = some t) : Effect s op t := by
  cases op with
  | default => exact Option.some.inj hstep ▸ .default
  | get p =>
      obtain ⟨inv, hget, rfl⟩ := Option.map_eq_some_iff.mp hstep
      exact .get hget
  | duplicate src p =>
      simp only [step] at hstep
      split at hstep
      · next q hsrc =>
          obtain ⟨inv, hget, rfl⟩ := Option.map_eq_some_iff.mp hstep
          exact .duplicate hsrc hget
      · simp at hstep
  | copy src =>
      obtain ⟨other, hsrc, rfl⟩ := Option.map_eq_some_iff.mp hstep
      simpa using Effect.copy hsrc
  | move src =>
      obtain ⟨other, hsrc, rfl⟩ := Option.map_eq_some_iff.mp hstep
      exact .move hsrc
  | copyAssign dst src =>
      simp only [step] at hstep
      split at hstep
      · next this other hdst hsrc =>
          by_cases hself : dst = src
          · subst hself
            obtain rfl : s = t := by simpa using hstep
            exact .copySelf hdst
          · obtain rfl := Option.some.inj (if_neg hself ▸ hstep)
            simpa [Buf.copyAssign] using Effect.copyAssign hdst hsrc (Ne.symm hself)
      · simp at hstep
  | moveAssign dst src =>
      simp only [step] at hstep
      split at hstep
      · next this other hdst hsrc =>
          by_cases hself : dst = src
          · subst hself
            obtain rfl : s = t := by simpa using hstep
            exact .moveSelf hdst
          · obtain rfl := Option.some.inj (if_neg hself ▸ hstep)
            exact .moveAssign hdst hsrc (Ne.symm hself)
      · simp at hstep
  | release src =>
      obtain ⟨this, hsrc, rfl⟩ := Option.map_eq_some_iff.mp hstep
      exact .release hsrc
  | wrap p =>
      obtain ⟨hp, hsome⟩ := Option.ite_none_right_eq_some.mp hstep
      exact Option.some.inj hsome ▸ .wrap hp
  | incRefcount i =>
      simp only [step] at hstep
      split at hstep
      · next p hi => exact Option.some.inj hstep ▸ .incRefcount hi
      · simp at hstep
  | decRefcount i =>
      simp only [step] at hstep
      split at hstep
      · next p hi =>
          obtain ⟨hp, hsome⟩ := Option.ite_none_right_eq_some.mp hstep
          exact Option.some.inj hsome ▸ .decRefcount hi hp
      · simp at hstep
  | destroy i =>
      obtain ⟨this, hi, rfl⟩ := Option.map_eq_some_iff.mp hstep
      exact .destroy hi

theorem count_eq_count_erase_add {l : List π} {p : π} (hp : p ∈ l) (q : π) :
    l.count q = (l.erase p).count q + if p = q then 1 else 0 := by
  rw [(List.perm_cons_erase hp).count_eq q, List.count_cons]
  simp

/-- The element that an operation takes an owner from. -/
def drops (s : State π) : Op π → Option π
  | .copyAssign dst src | .moveAssign dst src =>
      if dst = src then none else (s.bufs.live dst).bind Buf.buf_
  | .decRefcount i | .destroy i => (s.bufs.live i).bind Buf.buf_
  | _ => none

/-- The element that an operation gives an owner to. -/
def gains (s : State π) : Op π → Option π
  | .get p | .duplicate _ p => some p
  | .copy src | .incRefcount src => (s.bufs.live src).bind Buf.buf_
  | .copyAssign dst src => if dst = src then none else (s.bufs.live src).bind Buf.buf_
  | _ => none

/-- The owners after an operation. -/
theorem owners_step {s t : State π} {op : Op π} (hstep : step s op = some t) (q : π) :
    t.owners q + (if drops s op = some q then 1 else 0) =
      s.owners q + (if gains s op = some q then 1 else 0) := by
  cases step_effect hstep with
  | default => simp [State.owners, drops, gains]
  | get | duplicate =>
      simp only [State.owners, drops, gains, Store.tally_create, Buf.weight_some,
        Option.some.injEq, reduceCtorEq, if_false]
      omega
  | @copy src other hsrc =>
      simp only [State.owners, drops, gains, hsrc, Option.bind_some, Store.tally_create,
        Buf.ite_eq_weight, reduceCtorEq, if_false]
      omega
  | @move src other hsrc =>
      have hassign := Store.tally_assign hsrc .invalid (fun b => b.weight q)
      simp only [Buf.weight_invalid] at hassign
      simp only [State.owners, drops, gains, Store.tally_create, reduceCtorEq, if_false]
      omega
  | copySelf | moveSelf => simp [drops, gains]
  | @copyAssign dst src this other hdst hsrc hne =>
      have hassign := Store.tally_assign hdst other (fun b => b.weight q)
      simp only [State.owners, drops, gains, if_neg (Ne.symm hne), hdst, hsrc, Option.bind_some,
        Buf.ite_eq_weight]
      omega
  | @moveAssign dst src this other hdst hsrc hne =>
      have hassign := Store.tally_assign hdst other (fun b => b.weight q)
      have hsrc' : (s.bufs.assign dst other).live src = some other :=
        Store.live_assign_of_ne hdst hsrc hne other
      have hmoved := Store.tally_assign hsrc' .invalid (fun b => b.weight q)
      simp only [Buf.weight_invalid] at hmoved
      simp only [State.owners, drops, gains, if_neg (Ne.symm hne), hdst, Option.bind_some,
        Buf.ite_eq_weight, reduceCtorEq, if_false]
      omega
  | @release src this hsrc =>
      have hassign := Store.tally_assign hsrc .invalid (fun b => b.weight q)
      have hpointer : (this.buf_.toList ++ s.released).count q =
          s.released.count q + this.weight q := by
        cases hbuf : this.buf_ with
        | none => simp [Buf.weight, hbuf]
        | some p => simp [Buf.weight, hbuf, List.count_cons]
      simp only [Buf.weight_invalid] at hassign
      simp only [State.owners, drops, gains, hpointer, reduceCtorEq, if_false]
      omega
  | @wrap p hp =>
      have hcount := count_eq_count_erase_add hp q
      simp only [State.owners, drops, gains, Store.tally_create, Buf.weight_some, reduceCtorEq,
        if_false]
      omega
  | @incRefcount i p hi =>
      simp only [State.owners, drops, gains, hi, Option.bind_some, List.count_cons, beq_iff_eq,
        Option.some.injEq, reduceCtorEq, if_false]
      omega
  | @decRefcount i p hi hp =>
      have hcount := count_eq_count_erase_add hp q
      simp only [State.owners, drops, gains, hi, Option.bind_some, Option.some.injEq, reduceCtorEq,
        if_false]
      omega
  | @destroy i this hi =>
      have hdestroy := Store.tally_destroy hi (fun b => b.weight q)
      simp only [State.owners, drops, gains, hi, Option.bind_some, Buf.ite_eq_weight,
        reduceCtorEq, if_false]
      omega

theorem weight_le_owners {s : State π} {i : Nat} {b : Buf π} (hi : s.bufs.live i = some b)
    (q : π) : b.weight q ≤ s.owners q := by
  have hle := Store.le_tally hi (fun b => b.weight q)
  simp only [State.owners]
  omega

/-- A live `Buf` owns what it holds. -/
theorem owner_of_live {s : State π} {i : Nat} {p : π} (hi : s.bufs.live i = some ⟨some p⟩) :
    0 < s.owners p := by
  simpa [Buf.weight_some, Nat.succ_le_iff] using weight_le_owners hi p

/-- An element has an owner when some object, released pointer or unmatched call
owns it. -/
theorem owners_pos_iff {s : State π} {p : π} :
    0 < s.owners p ↔
      (∃ i, s.bufs.live i = some ⟨some p⟩) ∨ p ∈ s.released ∨ p ∈ s.unmatched := by
  have hbufs : 0 < s.bufs.tally (fun b => b.weight p) ↔ ∃ i, s.bufs.live i = some ⟨some p⟩ := by
    rw [Store.tally_pos_iff]
    constructor
    · rintro ⟨i, ⟨b⟩, hi, hb⟩
      obtain rfl : b = some p := by
        by_contra hne
        simp [Buf.weight, hne] at hb
      exact ⟨i, hi⟩
    · rintro ⟨i, hi⟩
      exact ⟨i, _, hi, by simp [Buf.weight_some]⟩
  rw [State.owners, Nat.add_pos_iff_pos_or_pos, Nat.add_pos_iff_pos_or_pos, hbufs,
    List.count_pos_iff, List.count_pos_iff, or_assoc]

/-- Two live `Buf` objects are two owners. -/
theorem weight_add_le_owners {s : State π} {i j : Nat} {b b' : Buf π}
    (hi : s.bufs.live i = some b) (hj : s.bufs.live j = some b') (hne : j ≠ i) (q : π) :
    b.weight q + b'.weight q ≤ s.owners q := by
  have hle := Store.add_le_tally hi hj hne (fun b => b.weight q)
  simp only [State.owners]
  omega

/-- Only an assignment between two `Buf` objects on one element takes an owner and
gives one. -/
theorem two_le_owners {s t : State π} {op : Op π} {p : π} (hstep : step s op = some t)
    (hdrop : drops s op = some p) (hgain : gains s op = some p) : 2 ≤ s.owners p := by
  cases step_effect hstep with
  | @copyAssign dst src this other hdst hsrc hne =>
      have hle := weight_add_le_owners hdst hsrc hne p
      simp only [drops, gains, if_neg (Ne.symm hne), hdst, hsrc, Option.bind_some] at hdrop hgain
      simpa [Buf.weight, hdrop, hgain] using hle
  | _ => simp [drops, gains] at hdrop hgain

/-- No operation changes what the books say of the owners. -/
theorem books_step {elements : Finset π} {s t : State π} {op : Op π} {d : π → Nat}
    (h : Inventory.Books elements s.inventory s.owners d) (hstep : step s op = some t) :
    Inventory.Books elements t.inventory t.owners d := by
  have howners := owners_step hstep
  cases step_effect hstep with
  | default | move | release | wrap =>
      exact h.congr fun q => by simpa [drops, gains] using howners q
  | copySelf | moveSelf => exact h
  | get hget => exact h.bufGet hget fun q => by simpa [drops, gains] using howners q
  | duplicate hsrc hget =>
      exact (h.touch (owner_of_live hsrc)).bufGet hget fun q => by
        simpa [drops, gains] using howners q
  | @copy src other hsrc =>
      exact h.copy other (weight_le_owners hsrc) fun q => by
        simpa [drops, gains, hsrc, Buf.ite_eq_weight] using howners q
  | @copyAssign dst src this other hdst hsrc hne =>
      -- the owners between the `dec_refcount` and the `inc_refcount`
      have hclean : Inventory.Books elements (this.cleanup s.inventory).1
          (fun q => s.owners q - this.weight q) d :=
        h.cleanup this fun q => (Nat.sub_add_cancel (weight_le_owners hdst q)).symm
      refine hclean.copy other (fun q => ?_) fun q => ?_
      · exact Nat.le_sub_of_add_le' (weight_add_le_owners hdst hsrc hne q)
      · have hq := howners q
        have hle := weight_le_owners hdst q
        simp only [drops, gains, if_neg (Ne.symm hne), hdst, hsrc, Option.bind_some,
          Buf.ite_eq_weight] at hq
        omega
  | @moveAssign dst src this other hdst hsrc hne =>
      refine h.cleanup this fun q => Eq.symm ?_
      simpa [drops, gains, Ne.symm hne, hdst, Buf.ite_eq_weight] using howners q
  | incRefcount hi =>
      exact h.incRefcount (owner_of_live hi) fun q => by
        simpa [drops, gains, hi] using howners q
  | decRefcount hi hp =>
      exact h.decRefcount fun q => by simpa [drops, gains, hi] using (howners q).symm
  | @destroy i this hi =>
      refine h.cleanup this fun q => Eq.symm ?_
      simpa [drops, gains, hi, Buf.ite_eq_weight] using howners q

theorem books_of_reachable {elements : Finset π} {s : State π}
    (hs : (machine elements).Reachable s) :
    Inventory.Books elements s.inventory s.owners fun _ => 0 :=
  hs.invariant (I := fun s => Inventory.Books elements s.inventory s.owners fun _ => 0)
    Inventory.books_started fun _ _ _ h hstep => books_step h hstep

/-- In every reachable state the reference count of each element is the number
of its owners, no returned element has been used, an element is free exactly
when it has no owner, and the free count is what the owned elements leave. -/
theorem refcount_eq_owners {elements : Finset π} {s : State π}
    (hs : (machine elements).Reachable s) :
    (∀ p, s.inventory.refcount p =
      s.bufs.tally (fun b => b.weight p) + s.released.count p + s.unmatched.count p) ∧
    s.inventory.fault = false ∧
    (∀ p ∈ elements, p ∈ s.inventory.free ↔ s.owners p = 0) ∧
    s.inventory.free.card =
      elements.card - (elements.filter fun p => s.owners p ≠ 0).card := by
  have h := books_of_reachable hs
  have hfault := h.fault fun _ => rfl
  exact ⟨(h.ledger hfault).count, hfault, fun p hp => h.free_iff hp, h.card_free⟩

/-- Two `Buf` objects on one element, assigned to each other, and a released
pointer that is wrapped again. -/
theorem refcount_eq_owners_shared :
    ∃ s : State Nat, (machine {7, 8}).run (State.init {7, 8})
        [.get 7, .copy 0, .copyAssign 1 0, .release 0, .wrap 7, .destroy 1] = some s ∧
      s.inventory.refcount 7 = 1 ∧ s.inventory.free.card = 1 := by
  obtain ⟨s, hrun, hbufs, hreleased, hunmatched⟩ :
      ∃ s : State Nat, (machine {7, 8}).run (State.init {7, 8})
        [.get 7, .copy 0, .copyAssign 1 0, .release 0, .wrap 7, .destroy 1] = some s ∧
      s.bufs = [some ⟨none⟩, none, some ⟨some 7⟩] ∧ s.released = [] ∧ s.unmatched = [] :=
    ⟨_, rfl, rfl, rfl, rfl⟩
  have h := refcount_eq_owners ⟨_, hrun⟩
  simp only [State.owners, hbufs, hreleased, hunmatched] at h
  exact ⟨s, hrun, h.1 7, h.2.2.2⟩

end Program
end Buffers
end DocaStdexec
