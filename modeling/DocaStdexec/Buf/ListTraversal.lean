import Mathlib.Algebra.Group.Pi.Basic
import DocaStdexec.Buf.Ownership

/-!
# Walking a list of buffers

`get_next_in_list`, `get_last_in_list` and `collect_list` wrap the pointers that
DOCA returns in `Buf` objects without taking a reference, while every one of
these objects gives one back when it is destroyed.  The books of `Inventory`
count such owners as borrowed, so they say exactly what a traversal costs: one
reference for each wrapped pointer.
-/

namespace DocaStdexec
namespace Buffers

open Lib

/-- A chained list of elements. -/
structure BufList (π : Type*) where
  elements : List π
  nodup : elements.Nodup

variable {π : Type*} [DecidableEq π]

namespace BufList

/-- `doca_buf_get_next_in_list`; `none` is `DOCA_ERROR_NOT_FOUND`. -/
def next (l : BufList π) (p : π) : Option π := l.elements[l.elements.idxOf p + 1]?

/-- `doca_buf_get_last_in_list`. -/
def last (l : BufList π) (p : π) : π := l.elements.getLastD p

/-- The elements from `p` on. -/
def suffixFrom (l : BufList π) (p : π) : List π := l.elements.drop (l.elements.idxOf p)

variable {l : BufList π} {p q : π}

theorem suffixFrom_eq_cons (hp : p ∈ l.elements) :
    l.suffixFrom p = p :: l.elements.drop (l.elements.idxOf p + 1) := by
  have hlt := List.idxOf_lt_length_iff.mpr hp
  rw [suffixFrom, List.drop_eq_getElem_cons hlt, List.getElem_idxOf hlt]

theorem mem_of_next (hnext : l.next p = some q) : q ∈ l.elements :=
  List.mem_of_getElem? hnext

/-- The last element ends every list of elements. -/
theorem suffixFrom_of_next_none (hp : p ∈ l.elements) (hnext : l.next p = none) :
    l.suffixFrom p = [p] := by
  rw [suffixFrom_eq_cons hp, List.drop_eq_nil_of_le (List.getElem?_eq_none_iff.mp hnext)]

/-- Every other element is followed by the elements from the next one on. -/
theorem suffixFrom_of_next (hp : p ∈ l.elements) (hnext : l.next p = some q) :
    l.suffixFrom p = p :: l.suffixFrom q := by
  obtain ⟨hlt, rfl⟩ := List.getElem?_eq_some_iff.mp hnext
  rw [suffixFrom_eq_cons hp, suffixFrom, l.nodup.idxOf_getElem]

theorem next_of_suffixFrom (hp : p ∈ l.elements) (hsuffix : l.suffixFrom p = [p]) :
    l.next p = none := by
  cases hnext : l.next p with
  | none => rfl
  | some q =>
      rw [suffixFrom_of_next hp hnext, suffixFrom_eq_cons (mem_of_next hnext)] at hsuffix
      simp at hsuffix

theorem next_of_suffixFrom_cons {rest : List π} (hp : p ∈ l.elements)
    (hsuffix : l.suffixFrom p = p :: q :: rest) :
    l.next p = some q ∧ l.suffixFrom q = q :: rest := by
  cases hnext : l.next p with
  | none =>
      rw [suffixFrom_of_next_none hp hnext] at hsuffix
      simp at hsuffix
  | some q' =>
      rw [suffixFrom_of_next hp hnext] at hsuffix
      have htail := (List.cons.inj hsuffix).2
      rw [suffixFrom_eq_cons (mem_of_next hnext)] at htail
      obtain ⟨rfl, hdrop⟩ := List.cons.inj htail
      exact ⟨rfl, by rw [suffixFrom_eq_cons (mem_of_next hnext), hdrop]⟩

omit [DecidableEq π] in
theorem last_mem (hp : p ∈ l.elements) : l.last p ∈ l.elements := by
  have hne := List.ne_nil_of_mem hp
  rw [last, List.getLastD_eq_getLast?, List.getLast?_eq_some_getLast hne]
  exact List.getLast_mem hne

end BufList

namespace Buf

/-- `get_next_in_list`: whether there is a next element, the inventory, and the
output parameter.  On an invalid `Buf` the process ends. -/
def getNextInList (l : BufList π) (this next : Buf π) (inv : Inventory π) :
    Option (Bool × Inventory π × Buf π) :=
  match this.buf_ with
  | none => none
  | some p =>
      let inv := inv.touch p
      match l.next p with
      | none => some (false, inv, next)
      | some nextDocaBuf =>
          let (inv, next, temporary) := next.moveAssign ⟨some nextDocaBuf⟩ inv
          some (true, (temporary.cleanup inv).1, next)

/-- `get_last_in_list`. -/
def getLastInList (l : BufList π) (this : Buf π) (inv : Inventory π) :
    Option (Inventory π × Buf π) :=
  this.buf_.map fun p => (inv.touch p, ⟨some (l.last p)⟩)

/-- The first `fuel` iterations of the loop of `collect_list`. -/
def collectLoop (l : BufList π) :
    Nat → (current : Buf π) → List (Buf π) → Inventory π → Option (Inventory π × List (Buf π))
  | 0, _, _, _ => none
  | fuel + 1, current, result, inv =>
      match current.getNextInList l invalid inv with
      | none => none
      | some (false, inv, next) => some ((current.cleanup (next.cleanup inv).1).1, result)
      | some (true, inv, next) =>
          let (inv, pushed) := next.copy inv
          let (inv, current) := current.copyAssign next inv
          collectLoop l fuel current (result ++ [pushed]) (next.cleanup inv).1

/-- `collect_list`; the loop visits each element of the list at most once. -/
def collectList (l : BufList π) (this : Buf π) (inv : Inventory π) :
    Option (Inventory π × List (Buf π)) :=
  match this.buf_ with
  | none => some (inv, [])
  | some p =>
      let current : Buf π := ⟨some p⟩
      let (inv, pushed) := current.copy inv
      collectLoop l (l.elements.length + 1) current [pushed] inv

end Buf

namespace Inventory

variable {elements : Finset π} {inv : Inventory π} {o d : π → Nat} {l : BufList π} {p q : π}

/-- What one reference to `p` adds to the owners. -/
abbrev one (p : π) : π → Nat := (⟨some p⟩ : Buf π).weight

theorem one_apply (p r : π) : one p r = if p = r then 1 else 0 := Buf.weight_some p r

theorem add_one_pos (o : π → Nat) (p : π) : 0 < (o + one p) p := by
  simp [Buf.weight_some]

theorem add_count_cons (o : π → Nat) (q : π) (rest : List π) :
    (o + fun r => (q :: rest).count r) = o + one q + fun r => rest.count r := by
  funext r
  simp only [Pi.add_apply, List.count_cons, one_apply, beq_iff_eq]
  omega

/-- `get_next_in_list` gives back what its output parameter held and borrows the
next element. -/
theorem Books.getNextInList (next : Buf π) (h : Books elements inv (o + next.weight) d)
    (hp : 0 < (o + next.weight) p) (hnext : l.next p = some q) :
    ∃ inv', (⟨some p⟩ : Buf π).getNextInList l next inv = some (true, inv', ⟨some q⟩) ∧
      Books elements inv' (o + one q) (d + one q) := by
  refine ⟨_, by simp only [Buf.getNextInList, hnext]; rfl, ?_⟩
  have htouch := h.touch hp
  have hborrow : Books elements (inv.touch p) _ (d + one q) :=
    htouch.borrow (p := q) (fun r => rfl) fun r => by simp only [Pi.add_apply, Buf.weight_some]
  refine hborrow.cleanup next fun r => ?_
  simp only [Pi.add_apply, Buf.weight_some]
  omega

/-- The loop of `collect_list` ends, appends the elements after `current`, and
borrows each of them; `current` gives its element back. -/
theorem Books.collectLoop (h : Books elements inv (o + one p) d) (hp : p ∈ l.elements)
    {rest : List π} (hrest : l.suffixFrom p = p :: rest) (result : List (Buf π)) {fuel : Nat}
    (hfuel : rest.length < fuel) :
    ∃ inv', Buf.collectLoop l fuel ⟨some p⟩ result inv =
        some (inv', result ++ rest.map fun q => ⟨some q⟩) ∧
      Books elements inv' (o + fun r => rest.count r) (d + fun r => rest.count r) := by
  obtain ⟨fuel, rfl⟩ := Nat.exists_eq_succ_of_ne_zero (Nat.ne_of_gt (Nat.zero_lt_of_lt hfuel))
  induction rest generalizing p fuel result inv o d with
  | nil =>
      have hnext := BufList.next_of_suffixFrom hp hrest
      refine ⟨_, by
        simp only [Buf.collectLoop, Buf.getNextInList, hnext, List.map_nil, List.append_nil]
        rfl, ?_⟩
      exact (h.touch (add_one_pos o p)).cleanup ⟨some p⟩ fun r => rfl
  | cons q rest ih =>
      obtain ⟨hnext, hsuffix⟩ := BufList.next_of_suffixFrom_cons hp hrest
      -- `next` borrows `q`; the copy in the vector and `current` take references
      obtain ⟨inv₁, hstep, h₁⟩ := Books.getNextInList .invalid h (add_one_pos o p) hnext
      have h₂ : Books elements _ (o + one p + one q + one q) _ :=
        h₁.copy ⟨some q⟩ (fun r => Nat.le_add_left _ _) fun r => rfl
      have h₃ : Books elements _ (o + one q + one q) _ :=
        h₂.cleanup ⟨some p⟩ fun r => by simp only [Pi.add_apply, one_apply]; omega
      have h₄ : Books elements _ (o + one q + one q + one q) _ :=
        h₃.copy ⟨some q⟩ (fun r => Nat.le_add_left _ _) fun r => rfl
      have h₅ : Books elements _ (o + one q + one q) _ := h₄.cleanup ⟨some q⟩ fun r => rfl
      have hlt : rest.length < fuel := by simpa using hfuel
      obtain ⟨fuel, rfl⟩ := Nat.exists_eq_succ_of_ne_zero (Nat.ne_of_gt (Nat.zero_lt_of_lt hlt))
      obtain ⟨inv', hloop, hbooks⟩ := ih h₅ (BufList.mem_of_next hnext) hsuffix
        (result ++ [⟨some q⟩]) fuel hlt
      refine ⟨inv', ?_, ?_⟩
      · rw [Buf.collectLoop, hstep]
        simpa [Buf.copyAssign] using hloop
      · rw [add_count_cons, add_count_cons]
        exact hbooks

/-- `collect_list` returns one `Buf` for each element from its own on, and
borrows each of them. -/
theorem Books.collectList (h : Books elements inv o d) (hp : p ∈ l.elements) :
    ∃ inv', (⟨some p⟩ : Buf π).collectList l inv =
        some (inv', (l.suffixFrom p).map fun q => ⟨some q⟩) ∧
      Books elements inv' (o + fun r => (l.suffixFrom p).count r)
        (d + fun r => (l.suffixFrom p).count r) := by
  have hsuffix := BufList.suffixFrom_eq_cons hp
  have hborrow : Books elements inv (o + one p) (d + one p) :=
    h.borrow (fun r => by rw [Pi.add_apply, one_apply]) fun r => by rw [Pi.add_apply, one_apply]
  have hpush : Books elements _ (o + one p + one p) _ :=
    hborrow.copy ⟨some p⟩ (fun r => Nat.le_add_left _ _) fun r => rfl
  have hfuel : (l.elements.drop (l.elements.idxOf p + 1)).length < l.elements.length + 1 := by
    rw [List.length_drop]
    omega
  obtain ⟨inv', hloop, hbooks⟩ := hpush.collectLoop hp hsuffix [⟨some p⟩] hfuel
  rw [hsuffix, add_count_cons, add_count_cons]
  exact ⟨inv', by simpa [Buf.collectList] using hloop, hbooks⟩

end Inventory

/-- A step of a traversal. -/
inductive Traversal (π : Type*)
  /-- A special member of `Buf`. -/
  | op (o : Op π)
  /-- `get_next_in_list` on object `i`, with object `j` as output parameter. -/
  | getNextInList (i j : Nat)
  | getLastInList (i : Nat)
  | collectList (i : Nat)
  deriving DecidableEq

/-- The special members that a traversal applies, to change no other objects than
its own: those from position `base` on. -/
def Op.within (base : Nat) : Op π → Bool
  | .default | .copy _ => true
  | .move src => base ≤ src
  | .copyAssign dst _ => base ≤ dst
  | .moveAssign dst src => base ≤ dst && base ≤ src
  | .destroy i => base ≤ i
  | _ => false

/-- The `Buf` holds an element of the list, or none. -/
def BufList.holds (l : BufList π) (b : Buf π) : Bool :=
  b.buf_.all fun p => p ∈ l.elements

/-- One step of a traversal of `l` that creates its objects from `base` on. -/
def traverse (l : BufList π) (base : Nat) (s : State π) : Traversal π → Option (State π)
  | .op o => if o.within base then step s o else none
  | .getNextInList i j =>
      match s.bufs.live i, s.bufs.live j with
      | some this, some next =>
          if l.holds this ∧ base ≤ j then
            (this.getNextInList l next s.inventory).map fun (_, inv, next) =>
              { s with inventory := inv, bufs := s.bufs.assign j next }
          else none
      | _, _ => none
  | .getLastInList i =>
      (s.bufs.live i).bind fun this =>
        if l.holds this then
          (this.getLastInList l s.inventory).map fun (inv, last) =>
            { s with inventory := inv, bufs := s.bufs.create last }
        else none
  | .collectList i =>
      (s.bufs.live i).bind fun this =>
        if l.holds this then
          (this.collectList l s.inventory).map fun (inv, result) =>
            { s with inventory := inv, bufs := s.bufs ++ result.map some }
        else none

/-- The traversals of `l` from `s` on. -/
def traversal (l : BufList π) (s : State π) : Machine (State π) (Traversal π) :=
  ⟨s, traverse l s.bufs.length⟩

/-- Everything a traversal can do in one step. -/
inductive Visit (l : BufList π) (base : Nat) (s : State π) : Traversal π → State π → Prop
  | op {o : Op π} {t : State π} (hwithin : o.within base) (hstep : step s o = some t) :
      Visit l base s (.op o) t
  | next {i j : Nat} {p q : π} {next : Buf π} {inv : Inventory π}
      (hi : s.bufs.live i = some ⟨some p⟩) (hj : s.bufs.live j = some next)
      (hp : p ∈ l.elements) (hbase : base ≤ j) (hnext : l.next p = some q)
      (hcall : (⟨some p⟩ : Buf π).getNextInList l next s.inventory = some (true, inv, ⟨some q⟩)) :
      Visit l base s (.getNextInList i j)
        { s with inventory := inv, bufs := s.bufs.assign j ⟨some q⟩ }
  | noNext {i j : Nat} {p : π} {next : Buf π}
      (hi : s.bufs.live i = some ⟨some p⟩) (hj : s.bufs.live j = some next)
      (hbase : base ≤ j) (hnext : l.next p = none) :
      Visit l base s (.getNextInList i j)
        { s with inventory := s.inventory.touch p, bufs := s.bufs.assign j next }
  | last {i : Nat} {p : π} (hi : s.bufs.live i = some ⟨some p⟩) (hp : p ∈ l.elements) :
      Visit l base s (.getLastInList i)
        { s with inventory := s.inventory.touch p, bufs := s.bufs.create ⟨some (l.last p)⟩ }
  | collect {i : Nat} {p : π} {inv : Inventory π} {result : List (Buf π)}
      (hi : s.bufs.live i = some ⟨some p⟩) (hp : p ∈ l.elements)
      (hcall : (⟨some p⟩ : Buf π).collectList l s.inventory = some (inv, result)) :
      Visit l base s (.collectList i)
        { s with inventory := inv, bufs := s.bufs ++ result.map some }
  | collectNone {i : Nat} (hi : s.bufs.live i = some .invalid) :
      Visit l base s (.collectList i) s

theorem BufList.holds_some {l : BufList π} {p : π} : l.holds ⟨some p⟩ = true ↔ p ∈ l.elements := by
  simp [BufList.holds]

theorem traverse_visit {l : BufList π} {base : Nat} {s t : State π} {ev : Traversal π}
    (hstep : traverse l base s ev = some t) : Visit l base s ev t := by
  cases ev with
  | op o =>
      obtain ⟨hwithin, hstep⟩ := Option.ite_none_right_eq_some.mp hstep
      exact .op hwithin hstep
  | getNextInList i j =>
      simp only [traverse] at hstep
      split at hstep
      · next this next hi hj =>
          obtain ⟨⟨hholds, hbase⟩, hmap⟩ := Option.ite_none_right_eq_some.mp hstep
          obtain ⟨⟨found, inv, out⟩, hcall, rfl⟩ := Option.map_eq_some_iff.mp hmap
          obtain ⟨_ | p⟩ := this
          · simp [Buf.getNextInList] at hcall
          · cases hnext : l.next p with
            | none =>
                simp only [Buf.getNextInList, hnext, Option.some.injEq, Prod.mk.injEq] at hcall
                obtain ⟨-, rfl, rfl⟩ := hcall
                exact .noNext hi hj hbase hnext
            | some q =>
                have hout := hcall
                simp only [Buf.getNextInList, Buf.moveAssign, Buf.move, hnext, Option.some.injEq,
                  Prod.mk.injEq] at hout
                obtain ⟨rfl, -, rfl⟩ := hout
                exact .next hi hj (BufList.holds_some.mp hholds) hbase hnext hcall
      · simp at hstep
  | getLastInList i =>
      obtain ⟨⟨b⟩, hi, hstep⟩ := Option.bind_eq_some_iff.mp hstep
      obtain ⟨hholds, hmap⟩ := Option.ite_none_right_eq_some.mp hstep
      obtain ⟨⟨inv, last⟩, hcall, rfl⟩ := Option.map_eq_some_iff.mp hmap
      obtain ⟨p, rfl, hpair⟩ := Option.map_eq_some_iff.mp hcall
      obtain ⟨rfl, rfl⟩ := Prod.mk.inj hpair
      exact .last hi (BufList.holds_some.mp hholds)
  | collectList i =>
      obtain ⟨⟨b⟩, hi, hstep⟩ := Option.bind_eq_some_iff.mp hstep
      obtain ⟨hholds, hmap⟩ := Option.ite_none_right_eq_some.mp hstep
      obtain ⟨⟨inv, result⟩, hcall, rfl⟩ := Option.map_eq_some_iff.mp hmap
      cases b with
      | none =>
          obtain ⟨rfl, rfl⟩ := Prod.mk.inj (Option.some.inj hcall)
          simpa using Visit.collectNone hi
      | some p => exact .collect hi (BufList.holds_some.mp hholds) hcall

/-- The elements that a step wraps without taking a reference. -/
def wrapped (l : BufList π) (s : State π) : Traversal π → List π
  | .op _ => []
  | .getNextInList i _ => ((s.bufs.live i).bind fun b => b.buf_.bind l.next).toList
  | .getLastInList i => ((s.bufs.live i).bind fun b => b.buf_.map l.last).toList
  | .collectList i => (((s.bufs.live i).bind Buf.buf_).map l.suffixFrom).getD []

/-- The step is no `get_next_in_list` on an element that has a successor, no
`get_last_in_list`, and no `collect_list` on a valid `Buf`. -/
def Harmless (l : BufList π) (s : State π) : Traversal π → Prop
  | .op _ => True
  | .getNextInList i _ => ∀ p, s.bufs.live i = some ⟨some p⟩ → l.next p = none
  | .getLastInList _ => False
  | .collectList i => ∀ p, s.bufs.live i ≠ some ⟨some p⟩

theorem tally_of_elements (ps : List π) (r : π) :
    Store.tally ((ps.map fun q => (⟨some q⟩ : Buf π)).map some) (fun b => b.weight r) =
      ps.count r := by
  induction ps with
  | nil => rfl
  | cons p ps ih =>
      simp only [Store.tally, List.map_cons, Option.map_some, Option.getD_some,
        Buf.weight_some, List.count_cons, beq_iff_eq] at ih ⊢
      omega

/-- A step of a traversal borrows what it wraps. -/
theorem books_traverse {elements : Finset π} {l : BufList π} {base : Nat} {s t : State π}
    {ev : Traversal π} {d : π → Nat} (h : Inventory.Books elements s.inventory s.owners d)
    (hstep : traverse l base s ev = some t) :
    Inventory.Books elements t.inventory t.owners (d + fun r => (wrapped l s ev).count r) := by
  cases traverse_visit hstep with
  | @op o t hwithin hop => exact books_step h hop
  | @next i j p q next inv hi hj hp hbase hnext hcall =>
      have howned : s.owners = (fun r => s.owners r - next.weight r) + next.weight := by
        funext r
        have hle := Store.le_tally hj (fun b => b.weight r)
        simp only [Pi.add_apply, State.owners]
        omega
      have hpos := owner_of_live hi
      rw [howned] at h hpos
      obtain ⟨inv', hcall', hbooks⟩ := Inventory.Books.getNextInList next h hpos hnext
      rw [hcall] at hcall'
      obtain rfl : inv = inv' := by simpa using hcall'
      have hwrapped : wrapped l s (.getNextInList i j) = [q] := by simp [wrapped, hi, hnext]
      rw [hwrapped, Inventory.add_count_cons]
      refine hbooks.congr fun r => ?_
      have hassign := Store.tally_assign hj ⟨some q⟩ (fun b => b.weight r)
      have hle := Store.le_tally hj (fun b => b.weight r)
      simp only [Buf.weight_some] at hassign
      simp only [Pi.add_apply, State.owners, Inventory.one_apply]
      omega
  | @noNext i j p next hi hj hbase hnext =>
      have hwrapped : wrapped l s (.getNextInList i j) = [] := by simp [wrapped, hi, hnext]
      rw [hwrapped]
      refine (h.touch (owner_of_live hi)).congr fun r => ?_
      have hassign := Store.tally_assign hj next (fun b => b.weight r)
      simp only [State.owners]
      omega
  | @last i p hi hp =>
      have hwrapped : wrapped l s (.getLastInList i) = [l.last p] := by simp [wrapped, hi]
      rw [hwrapped, Inventory.add_count_cons]
      refine (h.touch (owner_of_live hi)).borrow (p := l.last p) (fun r => ?_) fun r => ?_
      · simp only [State.owners, Store.tally_create, Buf.weight_some]
        omega
      · simp [Inventory.one_apply]
  | @collect i p inv result hi hp hcall =>
      have hwrapped : wrapped l s (.collectList i) = l.suffixFrom p := by simp [wrapped, hi]
      obtain ⟨inv', hcall', hbooks⟩ := h.collectList hp
      rw [hcall] at hcall'
      obtain ⟨rfl, rfl⟩ := Prod.mk.inj (Option.some.inj hcall')
      rw [hwrapped]
      refine hbooks.congr fun r => ?_
      simp only [Pi.add_apply, State.owners, Store.tally_append, tally_of_elements]
      omega
  | @collectNone i hi =>
      have hwrapped : wrapped l s (.collectList i) = [] := by simp [wrapped, hi, Buf.invalid]
      rw [hwrapped]
      exact h

/-- Only the three list operations wrap, and only elements of the list. -/
theorem wrapped_of_visit {l : BufList π} {base : Nat} {s t : State π} {ev : Traversal π}
    (hvisit : Visit l base s ev t) :
    (wrapped l s ev = [] ↔ Harmless l s ev) ∧ ∀ p ∈ wrapped l s ev, p ∈ l.elements := by
  cases hvisit with
  | op => simp [wrapped, Harmless]
  | next hi hj hp hbase hnext hcall =>
      simp [wrapped, Harmless, hi, hnext, BufList.mem_of_next hnext]
  | noNext hi hj hbase hnext => simp [wrapped, Harmless, hi, hnext]
  | last hi hp => simp [wrapped, Harmless, hi, BufList.last_mem hp]
  | @collect i p inv result hi hp hcall =>
      simpa [wrapped, Harmless, hi, BufList.suffixFrom_eq_cons hp] using
        ⟨hp, fun q => List.mem_of_mem_drop⟩
  | collectNone hi => simp [wrapped, Harmless, hi, Buf.invalid]

/-- A traversal borrows some elements of the list, and none exactly when its
steps are all harmless. -/
theorem books_traversal {elements : Finset π} {l : BufList π} {s₀ s t : State π}
    {es : List (Traversal π)} {d : π → Nat}
    (h : Inventory.Books elements s.inventory s.owners d)
    (hrun : (traversal l s₀).run s es = some t) :
    ∃ ws : List π,
      Inventory.Books elements t.inventory t.owners (d + fun r => ws.count r) ∧
      (ws = [] ↔ (traversal l s₀).Guarded (Harmless l) s es) ∧ ∀ p ∈ ws, p ∈ l.elements := by
  induction es generalizing s d with
  | nil =>
      obtain rfl : s = t := by simpa using hrun
      exact ⟨[], h, by simp, by simp⟩
  | cons ev es ih =>
      obtain ⟨u, hstep, hrest⟩ := Option.bind_eq_some_iff.mp hrun
      obtain ⟨ws, hbooks, hempty, hmem⟩ := ih (books_traverse h hstep) hrest
      obtain ⟨hharmless, hlist⟩ := wrapped_of_visit (traverse_visit hstep)
      refine ⟨wrapped l s ev ++ ws, ?_, ?_, ?_⟩
      · have hcount : (d + fun r => (wrapped l s ev ++ ws).count r) =
            (d + fun r => (wrapped l s ev).count r) + fun r => ws.count r := by
          funext r
          simp only [Pi.add_apply, List.count_append]
          omega
        rw [hcount]
        exact hbooks
      · rw [List.append_eq_nil_iff, hempty, hharmless]
        simp only [Machine.Guarded, hstep, Option.some.injEq, forall_eq']
      · intro p hp
        exact (List.mem_append.mp hp).elim (hlist p) (hmem p)

/-- A traversal leaves the objects, the released pointers and the unmatched
counts that were there before as they are. -/
structure Frame (s t : State π) : Prop where
  bufs : s.bufs <+: t.bufs
  released : t.released = s.released
  unmatched : t.unmatched = s.unmatched

theorem prefix_set {α : Type*} {xs ys : List α} (h : xs <+: ys) {i : Nat} (hi : xs.length ≤ i)
    (x : α) : xs <+: ys.set i x := by
  obtain ⟨tail, rfl⟩ := h
  rw [List.set_append_right i x hi]
  exact List.prefix_append _ _

theorem Frame.step {s₀ s t : State π} {op : Op π} (h : Frame s₀ s)
    (hwithin : op.within s₀.bufs.length) (hstep : step s op = some t) : Frame s₀ t := by
  obtain ⟨hbufs, hreleased, hunmatched⟩ := h
  have hcreate (b : Buf π) : s₀.bufs <+: s.bufs.create b := hbufs.trans (List.prefix_append _ _)
  cases step_effect hstep with
  | default => exact ⟨hcreate _, hreleased, hunmatched⟩
  | copy => exact ⟨hcreate _, hreleased, hunmatched⟩
  | move hsrc =>
      have hbase := of_decide_eq_true hwithin
      exact ⟨(prefix_set hbufs hbase _).trans (List.prefix_append _ _), hreleased, hunmatched⟩
  | copySelf | moveSelf => exact ⟨hbufs, hreleased, hunmatched⟩
  | copyAssign =>
      exact ⟨prefix_set hbufs (of_decide_eq_true hwithin) _, hreleased, hunmatched⟩
  | moveAssign =>
      obtain ⟨hdst, hsrc⟩ : _ ≤ _ ∧ _ ≤ _ := by simpa [Op.within] using hwithin
      exact ⟨prefix_set (prefix_set hbufs hdst _) hsrc _, hreleased, hunmatched⟩
  | destroy => exact ⟨prefix_set hbufs (of_decide_eq_true hwithin) _, hreleased, hunmatched⟩
  | get | duplicate | release | wrap | incRefcount | decRefcount =>
      exact absurd hwithin (by simp [Op.within])

theorem Frame.traverse {l : BufList π} {s₀ s t : State π} {ev : Traversal π} (h : Frame s₀ s)
    (hstep : traverse l s₀.bufs.length s ev = some t) : Frame s₀ t := by
  cases traverse_visit hstep with
  | op hwithin hop => exact h.step hwithin hop
  | next hi hj hp hbase hnext hcall =>
      exact ⟨prefix_set h.bufs hbase _, h.released, h.unmatched⟩
  | noNext hi hj hbase hnext => exact ⟨prefix_set h.bufs hbase _, h.released, h.unmatched⟩
  | last => exact ⟨h.bufs.trans (List.prefix_append _ _), h.released, h.unmatched⟩
  | collect => exact ⟨h.bufs.trans (List.prefix_append _ _), h.released, h.unmatched⟩
  | collectNone => exact h

/-- When the objects of a traversal are gone, the owners are those of before. -/
theorem Frame.owners {s t : State π} (h : Frame s t)
    (hdone : ∀ i, s.bufs.length ≤ i → t.bufs.live i = none) (p : π) : t.owners p = s.owners p := by
  obtain ⟨⟨tail, htail⟩, hreleased, hunmatched⟩ := h
  have hdead : Store.tally tail (fun b => b.weight p) = 0 := by
    refine Store.tally_eq_zero fun i b hb => ?_
    have hi := hdone (s.bufs.length + i) (Nat.le_add_right _ _)
    rw [← htail, Store.live_append_right, hb] at hi
    exact absurd hi (Option.some_ne_none b)
  simp only [State.owners, ← htail, Store.tally_append, hdead, hreleased, hunmatched, Nat.add_zero]

/-- `collect_list` returns one `Buf` for each element of the list from its own
on, in order; and a traversal whose objects have all been destroyed leaves the
counts of the list as they were, with nothing returned to the inventory, exactly
when each of its steps was harmless. -/
theorem traversal_keeps_refcounts_iff {elements : Finset π} (l : BufList π) {s : State π}
    (hs : (machine elements).Reachable s) (howned : ∀ p ∈ l.elements, 0 < s.owners p) :
    (∀ u i p, u.bufs.live i = some ⟨some p⟩ → p ∈ l.elements →
      (traversal l s).Reachable u →
      ∃ v, (traversal l s).step u (.collectList i) = some v ∧
        v.bufs = u.bufs ++ (l.suffixFrom p).map fun q => some ⟨some q⟩) ∧
    ∀ es t, (traversal l s).run s es = some t →
      (∀ i, s.bufs.length ≤ i → t.bufs.live i = none) →
      ((t.inventory.fault = false ∧ ∀ p ∈ l.elements,
        t.inventory.refcount p = s.inventory.refcount p ∧ p ∉ t.inventory.free) ↔
        (traversal l s).Guarded (Harmless l) s es) := by
  have hbooks := books_of_reachable hs
  have hexact := hbooks.ledger (hbooks.fault fun _ => rfl)
  constructor
  · rintro u i p hi hp ⟨es, hrun⟩
    obtain ⟨ws, hu, -⟩ := books_traversal hbooks hrun
    obtain ⟨inv, hcall, -⟩ := hu.collectList hp
    refine ⟨{ u with
      inventory := inv
      bufs := u.bufs ++ ((l.suffixFrom p).map fun q => ⟨some q⟩).map some }, ?_, by simp⟩
    simp [traversal, traverse, hi, BufList.holds_some.mpr hp, hcall]
  · intro es t hrun hdone
    obtain ⟨ws, ht, hempty, hlist⟩ := books_traversal hbooks hrun
    have hframe : Frame s t :=
      Machine.run_invariant (m := traversal l s) (I := Frame s)
        (fun _ _ _ h hstep => h.traverse hstep) ⟨List.prefix_rfl, rfl, rfl⟩ hrun
    rw [← hempty]
    constructor
    · rintro ⟨hfault, hsame⟩
      have hledger := ht.ledger hfault
      refine List.eq_nil_iff_forall_not_mem.mpr fun p hp => ?_
      have hcount := hledger.count p
      have hbefore := hexact.count p
      have hpos := List.count_pos_iff.mpr hp
      rw [hframe.owners hdone, (hsame p (hlist p hp)).1] at hcount
      simp only [Pi.add_apply] at hcount
      omega
    · rintro rfl
      have hfault := ht.fault fun p => rfl
      have hledger := ht.ledger hfault
      refine ⟨hfault, fun p hp => ?_⟩
      have hcount := hledger.count p
      have hbefore := hexact.count p
      have hpos := howned p hp
      rw [hframe.owners hdone] at hcount
      simp only [Pi.add_apply, List.count_nil] at hcount
      have hsame : t.inventory.refcount p = s.inventory.refcount p := by omega
      refine ⟨hsame, fun hfree => ?_⟩
      have hzero := ((hledger.free p).mp hfree).2
      omega

/-- `collect_list` on a list of two elements that one `Buf` each owns: after its
result has been destroyed both elements are back in the inventory, although
their owners are still there. -/
theorem collectList_returns_owned :
    ∃ s t : State Nat,
      (machine {7, 8}).run (State.init {7, 8}) [.get 7, .get 8] = some s ∧
      (∀ p ∈ [7, 8], 0 < s.owners p) ∧
      (traversal ⟨[7, 8], by decide⟩ s).run s
        [.collectList 0, .op (.destroy 2), .op (.destroy 3)] = some t ∧
      (∀ i, s.bufs.length ≤ i → t.bufs.live i = none) ∧
      t.inventory.free = {7, 8} ∧
      ¬ ∀ p ∈ [7, 8], t.inventory.refcount p = s.inventory.refcount p := by
  refine ⟨_, _, rfl, by decide, rfl, ?_, by decide, by decide⟩
  rintro (_ | _ | _ | _ | i) hi
  · exact absurd hi (by decide)
  · exact absurd hi (by decide)
  · rfl
  · rfl
  · rfl

/-- The last element of the list has no successor to wrap. -/
theorem traversal_keeps_refcounts_last :
    ∃ s t : State Nat,
      (machine {7, 8}).run (State.init {7, 8}) [.get 7, .get 8] = some s ∧
      (traversal ⟨[7, 8], by decide⟩ s).run s
        [.op .default, .getNextInList 1 2, .op (.destroy 2)] = some t ∧
      ∀ p ∈ [7, 8], t.inventory.refcount p = s.inventory.refcount p ∧ p ∉ t.inventory.free := by
  obtain ⟨s, hrun, howned, t, hwalk, hdone, hguard⟩ :
      ∃ s : State Nat, (machine {7, 8}).run (State.init {7, 8}) [.get 7, .get 8] = some s ∧
      (∀ p ∈ [7, 8], 0 < s.owners p) ∧
      ∃ t, (traversal ⟨[7, 8], by decide⟩ s).run s
        [.op .default, .getNextInList 1 2, .op (.destroy 2)] = some t ∧
      (∀ i, s.bufs.length ≤ i → t.bufs.live i = none) ∧
      (traversal ⟨[7, 8], by decide⟩ s).Guarded (Harmless ⟨[7, 8], by decide⟩) s
        [.op .default, .getNextInList 1 2, .op (.destroy 2)] := by
    refine ⟨_, rfl, by decide, _, rfl, ?_, ?_⟩
    · rintro (_ | _ | _ | i) hi
      · exact absurd hi (by decide)
      · exact absurd hi (by decide)
      · rfl
      · rfl
    · refine ⟨trivial, fun u hu => ⟨fun p hp => ?_, fun v hv => ⟨trivial, fun w hw => trivial⟩⟩⟩
      obtain rfl := Option.some.inj hu
      have hlast : (some ⟨some 8⟩ : Option (Buf Nat)) = some ⟨some p⟩ := hp
      obtain rfl : 8 = p := by simpa using hlast
      rfl
  exact ⟨s, t, hrun, hwalk,
    (((traversal_keeps_refcounts_iff ⟨[7, 8], by decide⟩ ⟨_, hrun⟩ howned).2 _ t hwalk hdone).mpr
      hguard).2⟩

end Buffers
end DocaStdexec
