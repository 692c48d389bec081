import DocaStdexec.Buf.Ownership
import DocaStdexec.Common.CheckError
import DocaStdexec.Rdma.ConnectionSender

/-!
# The buffers of an RDMA sender

`RdmaConnection::write`, `read` and `send` take their `Buf` arguments by value
and put the raw pointers into the `rdma_sender` that they return.  The parameters
own their elements until the call returns; after that the sender, the operation
and the submitted task use the pointers without owning anything.

The machine runs such calls, and the operations made from their senders, between
any operations of the caller on its own `Buf` objects.
-/

namespace DocaStdexec
namespace SenderBuffers

open Lib Buffers
open ConnectionSender (RdmaConnection)

/-- How the caller passes one of its `Buf` objects. -/
inductive Arg
  | copy (src : Nat)
  | move (src : Nat)
  deriving DecidableEq

def Arg.src : Arg → Nat
  | copy src | move src => src

/-- `rdma_sender`. -/
structure RdmaSender (κ ρ π : Type*) where
  rdma : ρ
  connection : Option κ
  buffers : List (Option π)

/-- How far the operation made from a sender is. -/
inductive Phase
  | returned
  | connected
  | started
  | completed
  deriving DecidableEq

/-- The caller's `Buf` objects and the senders that it was given. -/
structure State (κ ρ π : Type*) where
  base : Buffers.State π
  senders : List (RdmaSender κ ρ π × Phase)

inductive Event (π : Type*)
  /-- An operation of the caller on its own handles. -/
  | op (o : Op π)
  | write (src dst : Arg)
  | read (src dst : Arg)
  | send (buf : Arg)
  /-- `rdma_sender::connect` on sender `k`, with the status that allocating the
  task returns. -/
  | connect (k : Nat) (status : DocaError)
  /-- `start`, with the status of `doca_task_submit`. -/
  | start (k : Nat) (status : DocaError)
  | complete (k : Nat)
  deriving DecidableEq

section Sender

variable {κ ρ π : Type*} [DecidableEq π]

/-- Construct a parameter. -/
def passArg (s : Buffers.State π) : Arg → Option (Buffers.State π × Buf π)
  | .copy src =>
      (s.bufs.live src).map fun other =>
        ({ s with inventory := (other.copy s.inventory).1 }, (other.copy s.inventory).2)
  | .move src =>
      (s.bufs.live src).map fun other =>
        ({ s with bufs := s.bufs.assign src other.move.2 }, other.move.1)

/-- Construct the parameters of a call. -/
def passArgs (s : Buffers.State π) : List Arg → Option (Buffers.State π × List (Buf π))
  | [] => some (s, [])
  | arg :: args =>
      (passArg s arg).bind fun (s, param) =>
        (passArgs s args).map fun (s, params) => (s, param :: params)

/-- Destroy the parameters of a call, the last one first. -/
def dropParams (inv : Inventory π) : List (Buf π) → Inventory π
  | [] => inv
  | param :: params => (param.cleanup (dropParams inv params)).1

/-- A method of `RdmaConnection` that makes a sender from its parameters.  The
pointer to the `Rdma` is dereferenced. -/
def makeSender (c : RdmaConnection κ ρ) (args : List Arg) (s : Buffers.State π) :
    Option (Buffers.State π × RdmaSender κ ρ π) :=
  c.rdma.bind fun rdma =>
    (passArgs s args).map fun (s, params) =>
      ({ s with inventory := dropParams s.inventory params },
        ⟨rdma, c.connection, params.map Buf.buf_⟩)

/-- `RdmaConnection::write`. -/
def write (c : RdmaConnection κ ρ) (src dst : Arg) (s : Buffers.State π) :
    Option (Buffers.State π × RdmaSender κ ρ π) := makeSender c [src, dst] s

/-- `RdmaConnection::read`. -/
def read (c : RdmaConnection κ ρ) (src dst : Arg) (s : Buffers.State π) :
    Option (Buffers.State π × RdmaSender κ ρ π) := makeSender c [src, dst] s

/-- `RdmaConnection::send`. -/
def send (c : RdmaConnection κ ρ) (buf : Arg) (s : Buffers.State π) :
    Option (Buffers.State π × RdmaSender κ ρ π) := makeSender c [buf] s

/-- DOCA uses the buffers of a sender. -/
def touchAll (inv : Inventory π) : List (Option π) → Inventory π
  | [] => inv
  | none :: ps => touchAll inv ps
  | some p :: ps => touchAll (inv.touch p) ps

def State.use (s : State κ ρ π) (k : Nat) (sender : RdmaSender κ ρ π) (phase : Phase) :
    State κ ρ π where
  base := { s.base with inventory := touchAll s.base.inventory sender.buffers }
  senders := s.senders.set k (sender, phase)

def State.init (elements : Finset π) : State κ ρ π := ⟨Buffers.State.init elements, []⟩

/-- One event.  A sender whose `Task::allocate` threw can be connected again; a
`start` whose status is an error ends the process. -/
def step (c : RdmaConnection κ ρ) (s : State κ ρ π) : Event π → Option (State κ ρ π)
  | .op o => (Buffers.step s.base o).map fun base => { s with base := base }
  | .write src dst =>
      (write c src dst s.base).map fun (base, sender) =>
        ⟨base, s.senders ++ [(sender, .returned)]⟩
  | .read src dst =>
      (read c src dst s.base).map fun (base, sender) =>
        ⟨base, s.senders ++ [(sender, .returned)]⟩
  | .send buf =>
      (send c buf s.base).map fun (base, sender) => ⟨base, s.senders ++ [(sender, .returned)]⟩
  | .connect k status =>
      match s.senders[k]? with
      | some (sender, .returned) =>
          some (s.use k sender (if status = .success then .connected else .returned))
      | _ => none
  | .start k status =>
      match s.senders[k]? with
      | some (sender, .connected) =>
          if checkError status then some (s.use k sender .started) else none
      | _ => none
  | .complete k =>
      match s.senders[k]? with
      | some (sender, .started) => some (s.use k sender .completed)
      | _ => none

/-- Calls on the connection `c` over a started inventory of `elements`. -/
def machine (c : RdmaConnection κ ρ) (elements : Finset π) :
    Machine (State κ ρ π) (Event π) := ⟨State.init elements, step c⟩

/-- A sender whose operation has not completed refers to the element `p`. -/
def Refers (s : State κ ρ π) (p : π) : Prop :=
  ∃ x ∈ s.senders, x.2 ≠ .completed ∧ some p ∈ x.1.buffers

/-- No freed buffer has been used, and every buffer that an outstanding sender
refers to has a reference and is not in the inventory. -/
def Alive (s : State κ ρ π) : Prop :=
  s.base.inventory.fault = false ∧
    ∀ p, Refers s p → 1 ≤ s.base.inventory.refcount p ∧ p ∉ s.base.inventory.free

/-- Some owner of `p` is not moved into the call. -/
def Keeps (s : Buffers.State π) (args : List Arg) (p : π) : Prop :=
  (∃ i, s.bufs.live i = some ⟨some p⟩ ∧ .move i ∉ args) ∨ p ∈ s.released ∨ p ∈ s.unmatched

/-- One of the arguments holds `p`. -/
def Given (s : Buffers.State π) (args : List Arg) (p : π) : Prop :=
  ∃ arg ∈ args, s.bufs.live arg.src = some ⟨some p⟩

/-- A call keeps an owner of each buffer that it or another sender refers to. -/
def KeepsArgs (s : State κ ρ π) (args : List Arg) : Prop :=
  ∀ p, Refers s p ∨ Given s.base args p → Keeps s.base args p

/-- The caller keeps an owner of every buffer that an outstanding sender refers
to: it moves no last owner into a call, and drops no last owner otherwise. -/
def KeepsOwner (s : State κ ρ π) : Event π → Prop
  | .op o => ∀ p, Refers s p → drops s.base o = some p → 2 ≤ s.base.owners p
  | .write src dst | .read src dst => KeepsArgs s [src, dst]
  | .send buf => KeepsArgs s [buf]
  | .connect _ _ | .start _ _ | .complete _ => True

/-! ## What a call does to the owners -/

/-- How many of the parameters own `q`. -/
def paramsWeight (params : List (Buf π)) (q : π) : Nat :=
  match params with
  | [] => 0
  | b :: params => b.weight q + paramsWeight params q

theorem passArg_src {s t : Buffers.State π} {arg : Arg} {param : Buf π}
    (h : passArg s arg = some (t, param)) : s.bufs.live arg.src = some param := by
  cases arg with
  | copy src =>
      obtain ⟨other, hsrc, hpair⟩ := Option.map_eq_some_iff.mp h
      obtain ⟨-, rfl⟩ := Prod.mk.inj hpair
      rw [Buf.copy_snd]
      exact hsrc
  | move src =>
      obtain ⟨other, hsrc, hpair⟩ := Option.map_eq_some_iff.mp h
      obtain ⟨-, rfl⟩ := Prod.mk.inj hpair
      exact hsrc

/-- Only the source of a move is changed. -/
theorem passArg_frame {s t : Buffers.State π} {arg : Arg} {param : Buf π}
    (h : passArg s arg = some (t, param)) :
    t.released = s.released ∧ t.unmatched = s.unmatched ∧
      ∀ i, t.bufs.live i = if arg = .move i then some .invalid else s.bufs.live i := by
  cases arg with
  | copy src =>
      obtain ⟨other, hsrc, hpair⟩ := Option.map_eq_some_iff.mp h
      obtain ⟨rfl, -⟩ := Prod.mk.inj hpair
      exact ⟨rfl, rfl, fun i => by simp⟩
  | move src =>
      obtain ⟨other, hsrc, hpair⟩ := Option.map_eq_some_iff.mp h
      obtain ⟨rfl, -⟩ := Prod.mk.inj hpair
      refine ⟨rfl, rfl, fun i => ?_⟩
      simp only [Store.live_assign hsrc, Buf.move, Arg.move.injEq, eq_comm]

/-- The parameter is one more owner of what it holds, or takes over from the
source; `w` counts the parameters constructed before. -/
theorem passArg_books {elements : Finset π} {s t : Buffers.State π} {arg : Arg} {param : Buf π}
    {o d w : π → Nat} (hbooks : Inventory.Books elements s.inventory o d)
    (ho : ∀ q, o q = s.owners q + w q) (h : passArg s arg = some (t, param)) :
    Inventory.Books elements t.inventory (fun q => t.owners q + (w q + param.weight q)) d := by
  cases arg with
  | copy src =>
      obtain ⟨other, hsrc, hpair⟩ := Option.map_eq_some_iff.mp h
      obtain ⟨rfl, rfl⟩ := Prod.mk.inj hpair
      refine hbooks.copy other (fun q => ?_) fun q => ?_
      · exact (weight_le_owners hsrc q).trans (by rw [ho q]; exact Nat.le_add_right _ _)
      · rw [ho q, Buf.copy_snd, ← Nat.add_assoc]
        rfl
  | move src =>
      obtain ⟨other, hsrc, hpair⟩ := Option.map_eq_some_iff.mp h
      obtain ⟨rfl, rfl⟩ := Prod.mk.inj hpair
      refine hbooks.congr fun q => ?_
      have hassign := Store.tally_assign hsrc .invalid (fun b => b.weight q)
      simp only [Buf.weight_invalid] at hassign
      simp only [Buffers.State.owners, Buf.move] at ho ⊢
      rw [ho q]
      omega

theorem passArgs_books {elements : Finset π} {s t : Buffers.State π} {args : List Arg}
    {params : List (Buf π)} {o d w : π → Nat}
    (hbooks : Inventory.Books elements s.inventory o d) (ho : ∀ q, o q = s.owners q + w q)
    (h : passArgs s args = some (t, params)) :
    Inventory.Books elements t.inventory
      (fun q => t.owners q + (w q + paramsWeight params q)) d := by
  induction args generalizing s params o w with
  | nil =>
      obtain ⟨rfl, rfl⟩ := Prod.mk.inj (Option.some.inj h)
      exact hbooks.congr fun q => by simp [ho, paramsWeight]
  | cons arg args ih =>
      obtain ⟨⟨u, param⟩, hfirst, hmap⟩ := Option.bind_eq_some_iff.mp h
      obtain ⟨⟨v, rest⟩, hrest, hpair⟩ := Option.map_eq_some_iff.mp hmap
      obtain ⟨rfl, rfl⟩ := Prod.mk.inj hpair
      refine (ih (passArg_books hbooks ho hfirst) (fun q => rfl) hrest).congr fun q => ?_
      simp only [paramsWeight]
      omega

theorem dropParams_books {elements : Finset π} {inv : Inventory π} {params : List (Buf π)}
    {o o' d : π → Nat} (hbooks : Inventory.Books elements inv o d)
    (ho : ∀ q, o q = o' q + paramsWeight params q) :
    Inventory.Books elements (dropParams inv params) o' d := by
  induction params generalizing o' with
  | nil => exact hbooks.congr fun q => by simp [ho, paramsWeight]
  | cons param params ih =>
      have hrest : Inventory.Books elements (dropParams inv params)
          (fun q => o' q + param.weight q) d := ih fun q => by
        rw [ho q]
        simp only [paramsWeight]
        omega
      exact hrest.cleanup param fun q => rfl

/-- A call invalidates the sources of its moves and changes no other handle. -/
theorem passArgs_frame {s t : Buffers.State π} {args : List Arg} {params : List (Buf π)}
    (h : passArgs s args = some (t, params)) :
    t.released = s.released ∧ t.unmatched = s.unmatched ∧
      ∀ i, t.bufs.live i = if .move i ∈ args then some .invalid else s.bufs.live i := by
  induction args generalizing s params with
  | nil =>
      obtain ⟨rfl, rfl⟩ := Prod.mk.inj (Option.some.inj h)
      simp
  | cons arg args ih =>
      obtain ⟨⟨u, param⟩, hfirst, hmap⟩ := Option.bind_eq_some_iff.mp h
      obtain ⟨⟨v, rest⟩, hrest, hpair⟩ := Option.map_eq_some_iff.mp hmap
      obtain ⟨rfl, rfl⟩ := Prod.mk.inj hpair
      obtain ⟨hreleased, hunmatched, hlive⟩ := passArg_frame hfirst
      obtain ⟨hreleased', hunmatched', hlive'⟩ := ih hrest
      refine ⟨hreleased'.trans hreleased, hunmatched'.trans hunmatched, fun i => ?_⟩
      rw [hlive' i, hlive i]
      by_cases hi : arg = .move i
      · simp [hi]
      · simp [hi, Ne.symm hi]

/-- The parameters hold what the arguments held. -/
theorem passArgs_params {s t : Buffers.State π} {args : List Arg} {params : List (Buf π)}
    (h : passArgs s args = some (t, params)) (p : π) :
    some p ∈ params.map Buf.buf_ ↔ Given s args p := by
  induction args generalizing s params with
  | nil =>
      obtain ⟨rfl, rfl⟩ := Prod.mk.inj (Option.some.inj h)
      simp [Given]
  | cons arg args ih =>
      obtain ⟨⟨u, param⟩, hfirst, hmap⟩ := Option.bind_eq_some_iff.mp h
      obtain ⟨⟨v, rest⟩, hrest, hpair⟩ := Option.map_eq_some_iff.mp hmap
      obtain ⟨rfl, rfl⟩ := Prod.mk.inj hpair
      have hsrc := passArg_src hfirst
      obtain ⟨-, -, hlive⟩ := passArg_frame hfirst
      have hparam : some p = param.buf_ ↔ s.bufs.live arg.src = some ⟨some p⟩ := by
        rw [hsrc]
        obtain ⟨b⟩ := param
        simp [eq_comm]
      simp only [List.map_cons, List.mem_cons, ih hrest, Given, exists_eq_or_imp, hparam]
      -- what an earlier argument took from its source it holds itself
      refine or_congr_right' fun hfirst' => ?_
      refine exists_congr fun arg' => and_congr_right fun _ => ?_
      rw [hlive]
      by_cases hmove : arg = .move arg'.src
      · subst hmove
        exact ⟨fun hlost => by simp [Buf.invalid] at hlost, fun hheld => absurd hheld hfirst'⟩
      · rw [if_neg hmove]

/-- A call leaves exact books, gives its sender what the arguments held, and
leaves an element an owner exactly when some owner was not moved into it. -/
theorem makeSender_spec {elements : Finset π} {c : RdmaConnection κ ρ} {s t : Buffers.State π}
    {args : List Arg} {sender : RdmaSender κ ρ π} {d : π → Nat}
    (hbooks : Inventory.Books elements s.inventory s.owners d)
    (h : makeSender c args s = some (t, sender)) :
    Inventory.Books elements t.inventory t.owners d ∧
      (∀ p, some p ∈ sender.buffers ↔ Given s args p) ∧
      ∀ p, 0 < t.owners p ↔ Keeps s args p := by
  obtain ⟨rdma, -, hmap⟩ := Option.bind_eq_some_iff.mp h
  obtain ⟨⟨u, params⟩, hpass, hpair⟩ := Option.map_eq_some_iff.mp hmap
  obtain ⟨rfl, rfl⟩ := Prod.mk.inj hpair
  obtain ⟨hreleased, hunmatched, hlive⟩ := passArgs_frame hpass
  refine ⟨?_, passArgs_params hpass, fun p => ?_⟩
  · -- in the body of the call the parameters count as owners
    have hbody := passArgs_books (w := fun _ => 0) hbooks (fun q => rfl) hpass
    exact dropParams_books hbody fun q => by simp [Buffers.State.owners]
  · rw [owners_pos_iff]
    simp only [Keeps, hreleased, hunmatched, hlive]
    refine or_congr_left (exists_congr fun i => ?_)
    by_cases hi : .move i ∈ args
    · simp [hi, Buf.invalid]
    · simp [hi]

/-! ## Steps and runs -/

omit [DecidableEq π] in
theorem touchAll_books {elements : Finset π} {inv : Inventory π} {ps : List (Option π)}
    {o d : π → Nat} (hbooks : Inventory.Books elements inv o d)
    (hps : ∀ p, some p ∈ ps → 0 < o p) : Inventory.Books elements (touchAll inv ps) o d := by
  induction ps generalizing inv with
  | nil => exact hbooks
  | cons p ps ih =>
      have hrest : ∀ q, some q ∈ ps → 0 < o q := fun q hq => hps q (List.mem_cons_of_mem _ hq)
      cases p with
      | none => exact ih hbooks hrest
      | some p => exact ih (hbooks.touch (hps p List.mem_cons_self)) hrest

/-- With exact books a buffer is alive when it has an owner. -/
theorem alive_iff {elements : Finset π} {s : State κ ρ π}
    (hbooks : Inventory.Books elements s.base.inventory s.base.owners fun _ => 0) :
    Alive s ↔ ∀ p, Refers s p → 0 < s.base.owners p := by
  have hfault := hbooks.fault fun _ => rfl
  have hledger := hbooks.ledger hfault
  refine ⟨fun h p hp => ?_, fun h => ⟨hfault, fun p hp => ?_⟩⟩
  · have hcount := hledger.count p
    have hpos := (h.2 p hp).1
    omega
  · have hcount := hledger.count p
    have hpos := h p hp
    refine ⟨by omega, fun hfree => ?_⟩
    have hzero := ((hledger.free p).mp hfree).2
    omega

/-- An operation of the caller leaves an owned element an owner unless it takes
the last one. -/
theorem owners_pos_of_step {s t : Buffers.State π} {o : Op π} {p : π}
    (hstep : Buffers.step s o = some t) (hp : 0 < s.owners p) :
    0 < t.owners p ↔ (drops s o = some p → 2 ≤ s.owners p) := by
  have howners := owners_step hstep p
  by_cases hdrop : drops s o = some p
  · simp only [hdrop, if_true, true_imp_iff] at howners ⊢
    by_cases hgain : gains s o = some p
    · have htwo := two_le_owners hstep hdrop hgain
      simp only [hgain, if_true] at howners
      omega
    · simp only [hgain, if_false] at howners
      omega
  · simp only [hdrop, if_false, false_imp_iff, iff_true] at howners ⊢
    omega

omit [DecidableEq π] in
/-- A new sender refers to what the arguments held. -/
theorem refers_append {base : Buffers.State π} {s : State κ ρ π} {sender : RdmaSender κ ρ π}
    (p : π) :
    Refers (⟨base, s.senders ++ [(sender, .returned)]⟩ : State κ ρ π) p ↔
      Refers s p ∨ some p ∈ sender.buffers := by
  simp [Refers, or_and_right, exists_or]

omit [DecidableEq π] in
/-- Using a sender's buffers adds no reference. -/
theorem Refers.of_use {s : State κ ρ π} {k : Nat} {sender : RdmaSender κ ρ π}
    {phase phase' : Phase} (hk : s.senders[k]? = some (sender, phase)) (hphase : phase ≠ .completed)
    {p : π} (h : Refers (s.use k sender phase') p) : Refers s p := by
  obtain ⟨x, hx, hcompleted, hp⟩ := h
  rcases List.mem_or_eq_of_mem_set hx with hold | rfl
  · exact ⟨x, hold, hcompleted, hp⟩
  · exact ⟨_, List.mem_of_getElem? hk, hphase, hp⟩

/-- Exact books, and alive after the step exactly when the caller kept an owner. -/
theorem makeSender_step {elements : Finset π} {c : RdmaConnection κ ρ} {s : State κ ρ π}
    {base : Buffers.State π} {sender : RdmaSender κ ρ π} {args : List Arg}
    (hbooks : Inventory.Books elements s.base.inventory s.base.owners fun _ => 0)
    (hcall : makeSender c args s.base = some (base, sender)) :
    Inventory.Books elements base.inventory base.owners (fun _ => 0) ∧
      (Alive (⟨base, s.senders ++ [(sender, .returned)]⟩ : State κ ρ π) ↔ KeepsArgs s args) := by
  obtain ⟨hbase, hgiven, hkeeps⟩ := makeSender_spec hbooks hcall
  refine ⟨hbase, ?_⟩
  rw [alive_iff hbase]
  simp only [refers_append, hgiven, hkeeps, KeepsArgs]

theorem use_step {elements : Finset π} {s : State κ ρ π} {k : Nat} {sender : RdmaSender κ ρ π}
    {phase phase' : Phase}
    (hbooks : Inventory.Books elements s.base.inventory s.base.owners fun _ => 0)
    (halive : Alive s) (hk : s.senders[k]? = some (sender, phase)) (hphase : phase ≠ .completed) :
    Inventory.Books elements (s.use k sender phase').base.inventory
        (s.use k sender phase').base.owners (fun _ => 0) ∧
      Alive (s.use k sender phase') := by
  have howned := (alive_iff hbooks).mp halive
  have hbase : Inventory.Books elements (s.use k sender phase').base.inventory
      (s.use k sender phase').base.owners fun _ => 0 :=
    touchAll_books hbooks fun p hp => howned p ⟨_, List.mem_of_getElem? hk, hphase, hp⟩
  exact ⟨hbase, (alive_iff hbase).mpr fun p hp => howned p (hp.of_use hk hphase)⟩

/-- A step from a state where every buffer in use is alive leads to such a state
exactly when the caller keeps an owner of each. -/
theorem step_alive_iff {elements : Finset π} {c : RdmaConnection κ ρ} {s t : State κ ρ π}
    {ev : Event π} (hbooks : Inventory.Books elements s.base.inventory s.base.owners fun _ => 0)
    (halive : Alive s) (hstep : step c s ev = some t) :
    Inventory.Books elements t.base.inventory t.base.owners (fun _ => 0) ∧
      (Alive t ↔ KeepsOwner s ev) := by
  cases ev with
  | op o =>
      obtain ⟨base, hop, rfl⟩ := Option.map_eq_some_iff.mp hstep
      have hbase := books_step hbooks hop
      refine ⟨hbase, ?_⟩
      rw [alive_iff (s := { s with base := base }) hbase]
      refine forall_congr' fun p => ?_
      refine forall_congr' fun hp => ?_
      exact owners_pos_of_step hop ((alive_iff hbooks).mp halive p hp)
  | write src dst | read src dst | send buf =>
      obtain ⟨⟨base, sender⟩, hcall, rfl⟩ := Option.map_eq_some_iff.mp hstep
      exact makeSender_step hbooks hcall
  | connect k status =>
      simp only [step] at hstep
      split at hstep
      · next sender hk =>
          obtain rfl := Option.some.inj hstep
          obtain ⟨hbase, halive'⟩ := use_step hbooks halive hk (by decide)
          exact ⟨hbase, iff_of_true halive' trivial⟩
      · simp at hstep
  | start k status =>
      simp only [step] at hstep
      split at hstep
      · next sender hk =>
          obtain ⟨-, hsome⟩ := Option.ite_none_right_eq_some.mp hstep
          obtain rfl := Option.some.inj hsome
          obtain ⟨hbase, halive'⟩ := use_step hbooks halive hk (by decide)
          exact ⟨hbase, iff_of_true halive' trivial⟩
      · simp at hstep
  | complete k =>
      simp only [step] at hstep
      split at hstep
      · next sender hk =>
          obtain rfl := Option.some.inj hstep
          obtain ⟨hbase, halive'⟩ := use_step hbooks halive hk (by decide)
          exact ⟨hbase, iff_of_true halive' trivial⟩
      · simp at hstep

/-- In a run of the caller and its operations every buffer in use stays alive
exactly when the caller keeps an owner of each. -/
theorem sender_buffers_alive_iff {elements : Finset π} {c : RdmaConnection κ ρ}
    {es : List (Event π)} {t : State κ ρ π}
    (hrun : (machine c elements).run (State.init elements) es = some t) :
    (machine c elements).Always Alive (State.init elements) es ↔
      (machine c elements).Guarded KeepsOwner (State.init elements) es :=
  Machine.always_iff_guarded
    (I := fun s => Inventory.Books elements s.base.inventory s.base.owners fun _ => 0)
    (fun _ _ _ hbooks halive hstep => step_alive_iff hbooks halive hstep) Inventory.books_started
    ⟨rfl, fun p hp => by simp [Refers, State.init] at hp⟩ hrun

/-- A `Buf` that is moved into `send` is back in the inventory when the call
returns, and its sender then uses it. -/
theorem send_moved_frees_buffer :
    ∃ s t : State Nat Nat Nat,
      (machine ⟨some 5, some 1⟩ {7}).run (State.init {7}) [.op (.get 7), .send (.move 0)] =
        some s ∧
      s.base.inventory.free = {7} ∧
      (machine ⟨some 5, some 1⟩ {7}).run s [.connect 0 .success] = some t ∧
      t.base.inventory.fault = true ∧
      ¬ (machine ⟨some 5, some 1⟩ {7}).Always Alive (State.init {7})
        [.op (.get 7), .send (.move 0), .connect 0 .success] := by
  refine ⟨_, _, rfl, by decide, rfl, rfl, fun h => ?_⟩
  have hlast := h _ _ List.prefix_rfl rfl
  exact absurd hlast.1 (by decide)

/-- A `Buf` that is copied into `send` and kept until the operation completes. -/
theorem sender_buffers_alive_copied :
    ∃ t : State Nat Nat Nat,
      (machine ⟨some 5, some 1⟩ {7}).run (State.init {7})
        [.op (.get 7), .send (.copy 0), .connect 0 .success, .start 0 .success, .complete 0,
          .op (.destroy 0)] = some t ∧
      (machine ⟨some 5, some 1⟩ {7}).Always Alive (State.init {7})
        [.op (.get 7), .send (.copy 0), .connect 0 .success, .start 0 .success, .complete 0,
          .op (.destroy 0)] := by
  refine ⟨_, rfl, (sender_buffers_alive_iff rfl).mpr ?_⟩
  refine ⟨fun p hp hdrop => (nomatch hdrop), fun s₁ h₁ => ?_⟩
  obtain rfl := Option.some.inj h₁
  refine ⟨fun p hp => ?_, fun s₂ h₂ => ⟨trivial, fun s₃ h₃ => ⟨trivial, fun s₄ h₄ => ⟨trivial,
    fun s₅ h₅ => ?_⟩⟩⟩⟩
  · obtain hp | ⟨arg, harg, hheld⟩ := hp
    · simp [Refers, State.init] at hp
    · obtain rfl := List.mem_singleton.mp harg
      exact .inl ⟨0, hheld, by simp⟩
  · obtain rfl := Option.some.inj h₂
    obtain rfl := Option.some.inj h₃
    obtain rfl := Option.some.inj h₄
    obtain rfl := Option.some.inj h₅
    refine ⟨fun p hp => ?_, fun s₆ h₆ => trivial⟩
    obtain ⟨x, hx, hcompleted, -⟩ := hp
    obtain rfl := List.mem_singleton.mp hx
    exact absurd rfl hcompleted

end Sender
end SenderBuffers
end DocaStdexec
