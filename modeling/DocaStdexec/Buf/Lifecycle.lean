import DocaStdexec.Lib.Ledger
import DocaStdexec.Lib.Machine

/-!
# The life of an mmap and of an inventory

`MMap` and `BufInventory` wrap a native DOCA object with a flag that says whether it
is started.  The two classes implement the same life cycle separately: `MMap::start`
returns when the flag is set and `BufInventory::start` asks DOCA, which ends the
process when the inventory is started; `MMap` has `release` and a free callback.

DOCA is modelled by the natives that it has handed out.  A call on a destroyed
native, a stop of a native that is not started and a destruction of a started one
are recorded as faults.  `doca_mmap_destroy` calls the free callback that was
registered last.
-/

namespace DocaStdexec
namespace Lifecycle

open Lib

/-- A `doca_mmap` or a `doca_buf_inventory`. -/
structure Native where
  started : Bool
  destroys : Nat
  /-- `MMap::release` has handed it to the caller. -/
  released : Bool
  /-- The cookie of the registered free callback. -/
  cookie : Option Nat
  /-- The callback that was last given to `set_free_callback`. -/
  given : Option Nat
  deriving DecidableEq

/-- A `FreeCallback` on the heap. -/
structure FreeCallback where
  callback : Nat
  freed : Bool
  deriving DecidableEq

structure MMap where
  mmap_ : Option Nat
  started_ : Bool
  free_callback_ : Option Nat
  deriving DecidableEq

structure BufInventory where
  inventory_ : Option Nat
  started_ : Bool
  deriving DecidableEq

inductive Wrapper
  | mmap (m : MMap)
  | inventory (b : BufInventory)
  deriving DecidableEq

namespace Wrapper

/-- The native that the wrapper holds. -/
def handle : Wrapper → Option Nat
  | mmap m => m.mmap_
  | inventory b => b.inventory_

/-- `is_started`. -/
def isStarted : Wrapper → Bool
  | mmap m => m.started_
  | inventory b => b.started_

/-- The `FreeCallback` that the wrapper owns. -/
def callback : Wrapper → Option Nat
  | mmap m => m.free_callback_
  | inventory _ => none

/-- What a move leaves behind. -/
def moved : Wrapper → Wrapper
  | mmap _ => mmap ⟨none, false, none⟩
  | inventory _ => inventory ⟨none, false⟩

def sameKind : Wrapper → Wrapper → Bool
  | mmap _, mmap _ | inventory _, inventory _ => true
  | _, _ => false

end Wrapper

inductive Fault
  | usedAfterDestroy (n : Nat)
  | stoppedIdle (n : Nat)
  | destroyedStarted (n : Nat)
  deriving DecidableEq

/-- `free_callback_wrapper` has been called: the object that its cookie points to, as
it stood then, and the callback that was last given for the mmap. -/
structure Invocation where
  found : Option FreeCallback
  given : Option Nat
  deriving DecidableEq

structure State where
  wrappers : Store Wrapper
  natives : List Native
  callbacks : List FreeCallback
  faults : List Fault
  invocations : List Invocation
  /-- `check_error` has called `exit(1)`. -/
  exited : Bool
  deriving DecidableEq

/-- The destructor of a `unique_ptr<FreeCallback>`. -/
def freeCallback (callbacks : List FreeCallback) : Option Nat → List FreeCallback
  | some p => callbacks.modify p fun c => { c with freed := true }
  | none => callbacks

namespace State

def init : State := ⟨[], [], [], [], [], false⟩

def fault (s : State) (f : Fault) : State := { s with faults := s.faults ++ [f] }

def setNative (s : State) (n : Nat) (x : Native) : State :=
  { s with natives := s.natives.set n x }

def assign (s : State) (i : Nat) (w : Wrapper) : State :=
  { s with wrappers := s.wrappers.assign i w }

/-- `check_error` of a failure. -/
def exit (s : State) : State := { s with exited := true }

/-! ## The calls to DOCA -/

/-- A new native. -/
def createNative (s : State) (started : Bool) : State :=
  { s with natives := s.natives ++ [⟨started, 0, false, none, none⟩] }

/-- `doca_mmap_start` or `doca_buf_inventory_start`: whether it succeeds.  `again` is
the answer for a native that is started already. -/
def startNative (s : State) (n : Nat) (again : Bool) : Bool × State :=
  match s.natives[n]? with
  | some x =>
      if x.destroys ≠ 0 then (false, s.fault (.usedAfterDestroy n))
      else if x.started then (again, s)
      else (true, s.setNative n { x with started := true })
  | none => (false, s.fault (.usedAfterDestroy n))

/-- `doca_mmap_stop` or `doca_buf_inventory_stop`. -/
def stopNative (s : State) (n : Nat) : Bool × State :=
  match s.natives[n]? with
  | some x =>
      if x.destroys ≠ 0 then (false, s.fault (.usedAfterDestroy n))
      else if x.started then (true, s.setNative n { x with started := false })
      else (false, s.fault (.stoppedIdle n))
  | none => (false, s.fault (.usedAfterDestroy n))

/-- The free callback of a native that is being destroyed. -/
def invoke (s : State) (x : Native) : State :=
  { s with
    invocations := s.invocations ++ (x.cookie.map fun p => ⟨s.callbacks[p]?, x.given⟩).toList }

/-- `doca_mmap_destroy` or `doca_buf_inventory_destroy`. -/
def destroyNative (s : State) (n : Nat) : State :=
  match s.natives[n]? with
  | some x =>
      if x.destroys ≠ 0 then
        (s.setNative n { x with destroys := x.destroys + 1 }).fault (.usedAfterDestroy n)
      else
        let s := if x.started then s.fault (.destroyedStarted n) else s
        (s.invoke x).setNative n { x with destroys := 1 }
  | none => s.fault (.usedAfterDestroy n)

/-- `doca_mmap_set_free_cb`: `ok` is the answer on a native that exists. -/
def setFreeCb (s : State) (n p : Nat) (callback : Nat) (ok : Bool) : Bool × State :=
  match s.natives[n]? with
  | some x =>
      if x.destroys ≠ 0 then (false, s.fault (.usedAfterDestroy n))
      else if ok then (true, s.setNative n { x with cookie := some p, given := some callback })
      else (false, s)
  | none => (false, s.fault (.usedAfterDestroy n))

/-! ## The members of the two classes -/

/-- `MMap::start` of wrapper `i`. -/
def startMmap (s : State) (i : Nat) (m : MMap) (again : Bool) : State :=
  match m.mmap_ with
  | none => s.exit
  | some n =>
      if m.started_ then s
      else match s.startNative n again with
        | (true, s) => s.assign i (.mmap { m with started_ := true })
        | (false, s) => s.exit

/-- `MMap::stop`. -/
def stopMmap (s : State) (i : Nat) (m : MMap) : State :=
  match m.mmap_ with
  | none => s.exit
  | some n =>
      if !m.started_ then s
      else match s.stopNative n with
        | (true, s) => s.assign i (.mmap { m with started_ := false })
        | (false, s) => s.exit

/-- `BufInventory::start`: DOCA refuses a null pointer. -/
def startInventory (s : State) (i : Nat) (b : BufInventory) (again : Bool) : State :=
  match b.inventory_ with
  | none => s.exit
  | some n =>
      match s.startNative n again with
      | (true, s) => s.assign i (.inventory { b with started_ := true })
      | (false, s) => s.exit

/-- `BufInventory::stop`. -/
def stopInventory (s : State) (i : Nat) (b : BufInventory) : State :=
  if b.started_ then
    match b.inventory_ with
    | none => s.exit
    | some n =>
        match s.stopNative n with
        | (true, s) => s.assign i (.inventory { b with started_ := false })
        | (false, s) => s.exit
  else s

/-- `MMap::cleanup` of an object that held `m`; the status of the stop is ignored. -/
def cleanup (s : State) (m : MMap) : State :=
  let s := match m.mmap_ with
    | some n =>
        let s := if m.started_ then (s.stopNative n).2 else s
        s.destroyNative n
    | none => s
  { s with callbacks := freeCallback s.callbacks m.free_callback_ }

/-- What `~BufInventory` and the move assignment of `BufInventory` do to an object
that held `b`. -/
def discard (s : State) (b : BufInventory) : State :=
  match b.inventory_ with
  | some n =>
      if b.started_ then
        match s.stopNative n with
        | (true, s) => s.destroyNative n
        | (false, s) => s.exit
      else s.destroyNative n
  | none => s

/-- The end of a wrapper's value, in its destructor or in an assignment. -/
def finish (s : State) : Wrapper → State
  | .mmap m => s.cleanup m
  | .inventory b => s.discard b

/-- `MMap::set_free_callback`: the new `FreeCallback` replaces the old one before it
is registered. -/
def setFreeCallback (s : State) (i : Nat) (m : MMap) (callback : Nat) (ok : Bool) : State :=
  match m.mmap_ with
  | none => s.exit
  | some n =>
      let p := s.callbacks.length
      let s := { s with
        callbacks :=
          freeCallback (s.callbacks ++ [FreeCallback.mk callback false]) m.free_callback_ }
      let s := s.assign i (.mmap { m with free_callback_ := some p })
      match s.setFreeCb n p callback ok with
      | (true, s) => s
      | (false, s) => s.exit

/-- `MMap::release`. -/
def release (s : State) (i : Nat) (m : MMap) : State :=
  let s := { s with callbacks := freeCallback s.callbacks m.free_callback_ }
  let s := s.assign i (.mmap ⟨none, false, none⟩)
  match m.mmap_ with
  | some n =>
      { s with natives := s.natives.modify n fun x => { x with released := true } }
  | none => s

/-- The caller of `release` destroys the mmap, after stopping it. -/
def callerDestroy (s : State) (n : Nat) : Option State :=
  match s.natives[n]? with
  | some x =>
      if x.released ∧ x.destroys = 0 then
        some ((s.invoke x).setNative n { x with started := false, destroys := 1 })
      else none
  | none => none

end State

inductive Event
  /-- `MMap()` or `MMap(std::span<T>)`. -/
  | mmap
  /-- `MMap::create_from_export`: the mmap is started already. -/
  | mmapFromExport
  /-- `BufInventory(size_t)`. -/
  | inventory
  | start (i : Nat) (again : Bool)
  | stop (i : Nat)
  | moveConstruct (j : Nat)
  | moveAssign (i j : Nat)
  | setFreeCallback (i callback : Nat) (ok : Bool)
  | release (i : Nat)
  | destroy (i : Nat)
  | callerDestroy (n : Nat)
  deriving DecidableEq

/-- One operation of a process that is still running. -/
def step (s : State) (ev : Event) : Option State :=
  if s.exited then none
  else match ev with
    | .mmap =>
        some { s.createNative false with
          wrappers := s.wrappers.create (.mmap ⟨some s.natives.length, false, none⟩) }
    | .mmapFromExport =>
        some { s.createNative true with
          wrappers := s.wrappers.create (.mmap ⟨some s.natives.length, true, none⟩) }
    | .inventory =>
        some { s.createNative false with
          wrappers := s.wrappers.create (.inventory ⟨some s.natives.length, false⟩) }
    | .start i again =>
        match s.wrappers.live i with
        | some (.mmap m) => some (s.startMmap i m again)
        | some (.inventory b) => some (s.startInventory i b again)
        | none => none
    | .stop i =>
        match s.wrappers.live i with
        | some (.mmap m) => some (s.stopMmap i m)
        | some (.inventory b) => some (s.stopInventory i b)
        | none => none
    | .moveConstruct j =>
        (s.wrappers.live j).map fun other =>
          { s with wrappers := (s.wrappers.create other).assign j other.moved }
    | .moveAssign i j =>
        match s.wrappers.live i, s.wrappers.live j with
        | some w, some other =>
            if !w.sameKind other then none
            else if i = j then some s
            else
              let s := s.finish w
              some { s with wrappers := (s.wrappers.assign i other).assign j other.moved }
        | _, _ => none
    | .setFreeCallback i callback ok =>
        match s.wrappers.live i with
        | some (.mmap m) => some (s.setFreeCallback i m callback ok)
        | _ => none
    | .release i =>
        match s.wrappers.live i with
        | some (.mmap m) => some (s.release i m)
        | _ => none
    | .destroy i =>
        (s.wrappers.live i).map fun w =>
          let s := s.finish w
          { s with wrappers := s.wrappers.destroy i }
    | .callerDestroy n => s.callerDestroy n

def machine : Machine State Event := ⟨.init, step⟩

/-! ## The law of the natives -/

/-- A native that some wrapper has to destroy. -/
def Owed (ns : List Native) (n : Nat) : Prop :=
  ∃ x, ns[n]? = some x ∧ x.released = false ∧ x.destroys = 0

/-- Whether a handle is started. -/
def running (ns : List Native) : Option Nat → Bool
  | some n => ns[n]?.elim false Native.started
  | none => false

/-- Every native that is owed has one holder, and the flags of the holders are
right. -/
structure Sound (ws : Store Wrapper) (ns : List Native) : Prop where
  balanced : Balanced ws Wrapper.handle (Owed ns)
  flag : ∀ i w, ws.live i = some w → w.isStarted = running ns w.handle
  once : ∀ (n : Nat) (x : Native), ns[n]? = some x → x.destroys ≤ 1

namespace Sound

variable {ws : Store Wrapper} {ns : List Native} {i j n : Nat} {w w' : Wrapper} {x x' : Native}

theorem init : Sound [] [] :=
  ⟨.nil (by simp [Owed]), by simp [Store.live], by simp⟩

/-- What a wrapper that holds a native knows of it. -/
theorem native (h : Sound ws ns) (hi : ws.live i = some w) (hw : w.handle = some n) :
    ∃ x, ns[n]? = some x ∧ x.released = false ∧ x.destroys = 0 ∧ w.isStarted = x.started := by
  obtain ⟨x, hx, hreleased, hdestroys⟩ := h.balanced.owed_of_live hi hw
  refine ⟨x, hx, hreleased, hdestroys, ?_⟩
  rw [h.flag i w hi, hw, running, hx]
  rfl

theorem idle (h : Sound ws ns) (hi : ws.live i = some w) (hw : w.handle = none) :
    w.isStarted = false := by
  rw [h.flag i w hi, hw]
  rfl

theorem owed_set (hx : ns[n]? = some x) (r : Nat) :
    Owed (ns.set n x') r ↔ if r = n then x'.released = false ∧ x'.destroys = 0 else Owed ns r := by
  obtain ⟨hn, -⟩ := List.getElem?_eq_some_iff.mp hx
  by_cases hr : r = n
  · subst hr
    simp [Owed, hn]
  · simp [Owed, hr, List.getElem?_set_ne (Ne.symm hr)]

theorem once_set (h : Sound ws ns) (hx' : x'.destroys ≤ 1) (m : Nat) (y : Native)
    (hy : (ns.set n x')[m]? = some y) : y.destroys ≤ 1 := by
  rcases Store.getElem?_set_cases hy with ⟨-, rfl⟩ | ⟨-, hy⟩
  · exact hx'
  · exact h.once m y hy

theorem running_set_of_ne {r : Option Nat} (hr : r ≠ some n) :
    running (ns.set n x') r = running ns r := by
  cases r with
  | none => rfl
  | some m =>
      have hm : n ≠ m := fun h => hr (h ▸ rfl)
      simp only [running]
      rw [List.getElem?_set_ne hm]

/-- The owner of a native and the native change together. -/
theorem flag_assign (h : Sound ws ns) (hi : ws.live i = some w) (hw : w.handle = some n)
    (hw' : w'.isStarted = running (ns.set n x') w'.handle) (k : Nat) (v : Wrapper)
    (hk : (ws.assign i w').live k = some v) : v.isStarted = running (ns.set n x') v.handle := by
  rcases Store.live_assign_cases hi hk with ⟨-, rfl⟩ | ⟨hki, hk⟩
  · exact hw'
  · have hne : v.handle ≠ some n := fun hv => hki (h.balanced.unique hi hk hw hv)
    rw [running_set_of_ne hne, h.flag k v hk]

theorem running_concat {r : Option Nat} (hr : ∀ n ∈ r, n < ns.length) :
    running (ns ++ [x]) r = running ns r := by
  cases r with
  | none => rfl
  | some n => simp only [running, List.getElem?_append_left (hr n rfl)]

/-- A wrapper that is constructed holds the new native. -/
theorem create (h : Sound ws ns) (hx : x.released = false ∧ x.destroys = 0)
    (hw : w.handle = some ns.length) (hstarted : w.isStarted = x.started) :
    Sound (ws.create w) (ns ++ [x]) := by
  have hfresh : ¬Owed ns ns.length := by
    rintro ⟨y, hy, -⟩
    exact absurd (List.getElem?_eq_some_iff.mp hy).1 (lt_irrefl _)
  refine ⟨(h.balanced.create_take hw hfresh).congr fun r => ?_, fun k v hk => ?_, fun r y hy => ?_⟩
  · simp only [Owed, Store.getElem?_concat_iff]
    constructor
    · rintro (⟨y, hy, hlive⟩ | rfl)
      · exact ⟨y, .inl hy, hlive⟩
      · exact ⟨x, .inr ⟨rfl, rfl⟩, hx⟩
    · rintro ⟨y, hy | ⟨rfl, rfl⟩, hlive⟩
      · exact .inl ⟨y, hy, hlive⟩
      · exact .inr rfl
  · rcases Store.live_create_iff.mp hk with hk | ⟨-, rfl⟩
    · rw [h.flag k v hk]
      refine (running_concat fun m hm => ?_).symm
      obtain ⟨y, hy, -⟩ := h.balanced.owed_of_live hk hm
      exact (List.getElem?_eq_some_iff.mp hy).1
    · simp [hw, hstarted, running]
  · rcases Store.getElem?_concat_iff.mp hy with hy | ⟨-, rfl⟩
    · exact h.once r y hy
    · exact hx.2.le.trans (Nat.zero_le 1)

/-- A wrapper goes on with its native, which may be started or stopped. -/
theorem restart (h : Sound ws ns) (hi : ws.live i = some w) (hw : w.handle = some n)
    (hx : ns[n]? = some x) (hreleased' : x'.released = x.released)
    (hdestroys' : x'.destroys = x.destroys) (hw' : w'.handle = some n)
    (hstarted' : w'.isStarted = x'.started) : Sound (ws.assign i w') (ns.set n x') := by
  obtain ⟨hn, -⟩ := List.getElem?_eq_some_iff.mp hx
  obtain ⟨y, hy, hreleased, hdestroys, -⟩ := h.native hi hw
  obtain rfl : x = y := Option.some.inj (hx.symm.trans hy)
  have hflag : w'.isStarted = running (ns.set n x') w'.handle := by
    simp [hw', hstarted', running, hn]
  refine ⟨(h.balanced.assign_keep hi (hw'.trans hw.symm)).congr fun r => ?_,
    h.flag_assign hi hw hflag, h.once_set (hdestroys'.trans_le (h.once n x hx))⟩
  rw [owed_set hx]
  split
  · next hr =>
      subst hr
      exact iff_of_true ⟨x, hx, hreleased, hdestroys⟩
        ⟨hreleased'.trans hreleased, hdestroys'.trans hdestroys⟩
  · exact Iff.rfl

/-- A wrapper gives up its native, which nobody has to destroy any more. -/
theorem giveUp (h : Sound ws ns) (hi : ws.live i = some w) (hw : w.handle = some n)
    (hx : ns[n]? = some x) (hx' : x'.released = true ∨ x'.destroys = 1) (hx'' : x'.destroys ≤ 1)
    (hw' : w'.handle = none) (hidle : w'.isStarted = false) :
    Sound (ws.assign i w') (ns.set n x') := by
  have hflag : w'.isStarted = running (ns.set n x') w'.handle := by
    simp [hw', hidle, running]
  refine ⟨(h.balanced.assign_drop hi hw hw').congr fun r => ?_, h.flag_assign hi hw hflag,
    h.once_set hx''⟩
  rw [owed_set hx]
  split
  · next hr =>
      refine iff_of_false (fun howed => howed.2 hr) ?_
      rintro ⟨hreleased, hdestroys⟩
      simp [hreleased, hdestroys] at hx'
  · next hr => simp [hr]

/-- A wrapper changes in something else. -/
theorem keep (h : Sound ws ns) (hi : ws.live i = some w) (hw : w'.handle = w.handle)
    (hstarted : w'.isStarted = w.isStarted) : Sound (ws.assign i w') ns := by
  refine ⟨h.balanced.assign_keep hi hw, fun k v hk => ?_, h.once⟩
  rcases Store.live_assign_cases hi hk with ⟨-, rfl⟩ | ⟨-, hk⟩
  · rw [hstarted, hw, h.flag i w hi]
  · exact h.flag k v hk

/-- A native that nobody has to destroy is destroyed. -/
theorem set_of_not_owed (h : Sound ws ns) (hx : ns[n]? = some x) (hn : ¬Owed ns n)
    (hx' : ¬(x'.released = false ∧ x'.destroys = 0)) (hx'' : x'.destroys ≤ 1) :
    Sound ws (ns.set n x') := by
  refine ⟨h.balanced.congr fun r => ?_, fun k v hk => ?_, h.once_set hx''⟩
  · rw [owed_set hx]
    split
    · next hr => exact iff_of_false (hr ▸ hn) hx'
    · exact Iff.rfl
  · have hne : v.handle ≠ some n := fun hv => hn (h.balanced.owed_of_live hk hv)
    rw [running_set_of_ne hne, h.flag k v hk]

theorem moved_handle (w : Wrapper) : w.moved.handle = none := by cases w <;> rfl

theorem moved_isStarted (w : Wrapper) : w.moved.isStarted = false := by cases w <;> rfl

/-- The object that was moved from is left without a native. -/
theorem moveCreate (h : Sound ws ns) (hj : ws.live j = some w) :
    Sound ((ws.create w).assign j w.moved) ns := by
  refine ⟨h.balanced.move_create hj rfl (moved_handle w), fun k v hk => ?_, h.once⟩
  rcases Store.live_assign_cases (Store.live_create_of_live hj w) hk with ⟨-, rfl⟩ | ⟨-, hk⟩
  · rw [moved_isStarted, moved_handle]
    rfl
  · rcases Store.live_create_iff.mp hk with hk | ⟨-, rfl⟩
    · exact h.flag k v hk
    · exact h.flag j w hj

theorem moveAssign (h : Sound ws ns) (hi : ws.live i = some w') (hj : ws.live j = some w)
    (hij : j ≠ i) (hw' : w'.handle = none) :
    Sound ((ws.assign i w).assign j w.moved) ns := by
  have hj' : (ws.assign i w).live j = some w := Store.live_assign_of_ne hi hj hij w
  refine ⟨h.balanced.move_assign hi hj hij hw' rfl (moved_handle w), fun k v hk => ?_, h.once⟩
  rcases Store.live_assign_cases hj' hk with ⟨-, rfl⟩ | ⟨-, hk⟩
  · rw [moved_isStarted, moved_handle]
    rfl
  · rcases Store.live_assign_cases hi hk with ⟨-, rfl⟩ | ⟨-, hk⟩
    · exact h.flag j v hj
    · exact h.flag k v hk

theorem destroy (h : Sound ws ns) (hi : ws.live i = some w) (hw : w.handle = none) :
    Sound (ws.destroy i) ns := by
  refine ⟨h.balanced.destroy_keep hi hw, fun k v hk => ?_, h.once⟩
  rw [Store.live_destroy] at hk
  split at hk
  · simp at hk
  · exact h.flag k v hk

end Sound

/-- The natives when the wrapper that holds one of them is finished. -/
def retire (ns : List Native) : Option Nat → List Native
  | some n => ns.modify n fun x => { x with started := false, destroys := 1 }
  | none => ns

/-- What the end of a native calls. -/
def State.invoked (s : State) : Option Nat → List Invocation
  | some n => ((s.natives[n]?.bind Native.cookie).map fun p =>
      ⟨s.callbacks[p]?, s.natives[n]?.bind Native.given⟩).toList
  | none => []

theorem modify_eq_set {ns : List Native} {n : Nat} {x : Native} (hx : ns[n]? = some x)
    (f : Native → Native) : ns.modify n f = ns.set n (f x) := by
  rw [List.modify_eq_set_getElem?, hx]
  rfl

/-- A wrapper whose native is destroyed holds nothing. -/
theorem Sound.retire {ws : Store Wrapper} {ns : List Native} (h : Sound ws ns) {i : Nat}
    {w : Wrapper} (hi : ws.live i = some w) :
    Sound (ws.assign i w.moved) (Lifecycle.retire ns w.handle) := by
  cases hw : w.handle with
  | none =>
      exact h.keep hi (by rw [moved_handle, hw]) (by rw [moved_isStarted, h.idle hi hw])
  | some n =>
      obtain ⟨x, hx, -⟩ := h.native hi hw
      rw [Lifecycle.retire, modify_eq_set hx]
      exact h.giveUp hi hw hx (.inr rfl) le_rfl (moved_handle w) (moved_isStarted w)

theorem stopNative_eq {s : State} {n : Nat} {x : Native} (hx : s.natives[n]? = some x)
    (hlive : x.destroys = 0) (hstarted : x.started = true) :
    s.stopNative n = (true, s.setNative n { x with started := false }) := by
  simp [State.stopNative, hx, hlive, hstarted]

theorem startNative_eq {s : State} {n : Nat} {x : Native} (hx : s.natives[n]? = some x)
    (hlive : x.destroys = 0) (again : Bool) :
    s.startNative n again =
      if x.started then (again, s) else (true, s.setNative n { x with started := true }) := by
  simp [State.startNative, hx, hlive]

theorem destroyNative_eq {s : State} {n : Nat} {x : Native} (hx : s.natives[n]? = some x)
    (hlive : x.destroys = 0) (hidle : x.started = false) :
    s.destroyNative n = { s with
      natives := retire s.natives (some n)
      invocations := s.invocations ++ s.invoked (some n) } := by
  have hretire : retire s.natives (some n) = s.natives.set n { x with destroys := 1 } := by
    rw [retire, modify_eq_set hx]
    simp only [← hidle]
  rw [hretire]
  simp [State.destroyNative, hx, hlive, hidle, State.invoke, State.setNative, State.invoked]

/-- A started native is stopped before it is destroyed. -/
theorem stop_destroyNative_eq {s : State} {n : Nat} {x : Native} (hx : s.natives[n]? = some x)
    (hlive : x.destroys = 0) :
    (s.setNative n { x with started := false }).destroyNative n = { s with
      natives := retire s.natives (some n)
      invocations := s.invocations ++ s.invoked (some n) } := by
  obtain ⟨hn, -⟩ := List.getElem?_eq_some_iff.mp hx
  have hstopped : (s.setNative n { x with started := false }).natives[n]? =
      some { x with started := false } := by simp [State.setNative, hn]
  rw [destroyNative_eq hstopped hlive rfl]
  have hretire : retire (s.setNative n { x with started := false }).natives (some n) =
      retire s.natives (some n) := by
    rw [retire, retire, modify_eq_set hstopped, modify_eq_set hx]
    simp [State.setNative]
  have hinvoked : (s.setNative n { x with started := false }).invoked (some n) =
      s.invoked (some n) := by
    rw [State.invoked, State.invoked, hstopped, hx]
    rfl
  rw [hretire, hinvoked]
  rfl

/-- Both destructors stop a native that is started, destroy it, and free the callback
after that. -/
theorem finish_eq {s : State} (h : Sound s.wrappers s.natives) {i : Nat} {w : Wrapper}
    (hi : s.wrappers.live i = some w) :
    s.finish w = { s with
      natives := retire s.natives w.handle
      callbacks := freeCallback s.callbacks w.callback
      invocations := s.invocations ++ s.invoked w.handle } := by
  cases hw : w.handle with
  | none =>
      have hnothing : s.invocations ++ s.invoked none = s.invocations := List.append_nil _
      rw [hnothing]
      cases w with
      | mmap m =>
          have hm : m.mmap_ = none := hw
          simp only [State.finish, State.cleanup, hm]
          rfl
      | inventory b =>
          have hb : b.inventory_ = none := hw
          simp only [State.finish, State.discard, hb]
          rfl
  | some n =>
      obtain ⟨x, hx, -, hlive, hflag⟩ := h.native hi hw
      cases w with
      | mmap m =>
          have hm : m.mmap_ = some n := hw
          have hflag' : m.started_ = x.started := hflag
          cases hstarted : x.started with
          | true =>
              simp only [State.finish, State.cleanup, hm, hflag', hstarted, if_true,
                stopNative_eq hx hlive hstarted, stop_destroyNative_eq hx hlive]
              rfl
          | false =>
              simp only [State.finish, State.cleanup, hm, hflag', hstarted, Bool.false_eq_true,
                if_false, destroyNative_eq hx hlive hstarted]
              rfl
      | inventory b =>
          have hb : b.inventory_ = some n := hw
          have hflag' : b.started_ = x.started := hflag
          cases hstarted : x.started with
          | true =>
              simp only [State.finish, State.discard, hb, hflag', hstarted, if_true,
                stopNative_eq hx hlive hstarted, stop_destroyNative_eq hx hlive]
              rfl
          | false =>
              simp only [State.finish, State.discard, hb, hflag', hstarted, Bool.false_eq_true,
                if_false, destroyNative_eq hx hlive hstarted]
              rfl

/-! ## The steps -/

def Event.isRelease : Event → Bool
  | .release _ => true
  | _ => false

/-- Everything a step can do in a sound state.  `MMap::release` is set apart from the
other operations. -/
inductive Effect (s : State) : Event → State → Prop
  | create {ev : Event} {w : Wrapper} {b : Bool} (hev : ev.isRelease = false)
      (hw : w.handle = some s.natives.length) (hb : w.isStarted = b) (hc : w.callback = none) :
      Effect s ev { s.createNative b with wrappers := s.wrappers.create w }
  | same {ev : Event} (hev : ev.isRelease = false) : Effect s ev s
  | exit {ev : Event} (hev : ev.isRelease = false) : Effect s ev s.exit
  | restart {ev : Event} {i n : Nat} {w w' : Wrapper} {x : Native} {b : Bool}
      (hev : ev.isRelease = false) (hi : s.wrappers.live i = some w) (hw : w.handle = some n)
      (hx : s.natives[n]? = some x) (hw' : w'.handle = some n) (hb : w'.isStarted = b)
      (hc : w'.callback = w.callback) :
      Effect s ev ((s.setNative n { x with started := b }).assign i w')
  | moveConstruct {j : Nat} {w : Wrapper} (hj : s.wrappers.live j = some w) :
      Effect s (.moveConstruct j)
        { s with wrappers := (s.wrappers.create w).assign j w.moved }
  | moveAssign {i j : Nat} {w other : Wrapper} (hi : s.wrappers.live i = some w)
      (hj : s.wrappers.live j = some other) (hij : j ≠ i) :
      Effect s (.moveAssign i j) { s with
        wrappers := (s.wrappers.assign i other).assign j other.moved
        natives := retire s.natives w.handle
        callbacks := freeCallback s.callbacks w.callback
        invocations := s.invocations ++ s.invoked w.handle }
  | destroy {i : Nat} {w : Wrapper} (hi : s.wrappers.live i = some w) :
      Effect s (.destroy i) { s with
        wrappers := s.wrappers.destroy i
        natives := retire s.natives w.handle
        callbacks := freeCallback s.callbacks w.callback
        invocations := s.invocations ++ s.invoked w.handle }
  | setFreeCallback {i n callback : Nat} {m : MMap} {x : Native} (ok : Bool)
      (hi : s.wrappers.live i = some (.mmap m)) (hm : m.mmap_ = some n)
      (hx : s.natives[n]? = some x) :
      Effect s (.setFreeCallback i callback ok) { s with
        wrappers := s.wrappers.assign i
          (.mmap { m with free_callback_ := some s.callbacks.length })
        natives := if ok then
            s.natives.set n { x with cookie := some s.callbacks.length, given := some callback }
          else s.natives
        callbacks := freeCallback (s.callbacks ++ [⟨callback, false⟩]) m.free_callback_
        exited := !ok }
  | releaseNothing {i : Nat} {m : MMap} (hi : s.wrappers.live i = some (.mmap m))
      (hm : m.mmap_ = none) :
      Effect s (.release i) { s with
        wrappers := s.wrappers.assign i (.mmap ⟨none, false, none⟩)
        callbacks := freeCallback s.callbacks m.free_callback_ }
  | release {i n : Nat} {m : MMap} {x : Native} (hi : s.wrappers.live i = some (.mmap m))
      (hm : m.mmap_ = some n) (hx : s.natives[n]? = some x) :
      Effect s (.release i) { s with
        wrappers := s.wrappers.assign i (.mmap ⟨none, false, none⟩)
        natives := s.natives.set n { x with released := true }
        callbacks := freeCallback s.callbacks m.free_callback_ }
  | callerDestroy {n : Nat} {x : Native} (hx : s.natives[n]? = some x)
      (hreleased : x.released = true) (hlive : x.destroys = 0) :
      Effect s (.callerDestroy n) { s with
        natives := retire s.natives (some n)
        invocations := s.invocations ++ s.invoked (some n) }

section Steps

variable {s t : State} {i : Nat}

/-- `start` and `stop` on a wrapper without a native end the process or do nothing;
on the others they bring the flag and the native into step. -/
theorem start_effect (h : Sound s.wrappers s.natives) {ev : Event} (hev : ev.isRelease = false)
    {again : Bool} {w : Wrapper} (hi : s.wrappers.live i = some w)
    (ht : t = match w with
      | .mmap m => s.startMmap i m again
      | .inventory b => s.startInventory i b again) : Effect s ev t := by
  subst ht
  cases hw : w.handle with
  | none =>
      cases w with
      | mmap m =>
          have hm : m.mmap_ = none := hw
          simp only [State.startMmap, hm]
          exact .exit hev
      | inventory b =>
          have hb : b.inventory_ = none := hw
          simp only [State.startInventory, hb]
          exact .exit hev
  | some n =>
      obtain ⟨x, hx, -, hlive, hflag⟩ := h.native hi hw
      cases w with
      | mmap m =>
          have hm : m.mmap_ = some n := hw
          have hflag' : m.started_ = x.started := hflag
          cases hstarted : x.started with
          | true =>
              simp only [State.startMmap, hm, hflag', hstarted, if_true]
              exact .same hev
          | false =>
              simp only [State.startMmap, hm, hflag', hstarted, Bool.false_eq_true, if_false,
                startNative_eq hx hlive]
              exact .restart hev hi hw hx rfl rfl rfl
      | inventory b =>
          have hb : b.inventory_ = some n := hw
          have hflag' : b.started_ = x.started := hflag
          cases hstarted : x.started with
          | true =>
              -- DOCA decides: the process ends, or the flag is set once more
              cases again with
              | true =>
                  have hsame : s.assign i (.inventory ⟨some n, true⟩) = s := by
                    rw [← hb, ← hstarted, ← hflag', State.assign, Store.assign_self hi]
                  simp only [State.startInventory, hb, startNative_eq hx hlive, hstarted, if_true,
                    hsame]
                  exact .same hev
              | false =>
                  simp only [State.startInventory, hb, startNative_eq hx hlive, hstarted, if_true]
                  exact .exit hev
          | false =>
              simp only [State.startInventory, hb, startNative_eq hx hlive, hstarted,
                Bool.false_eq_true, if_false]
              exact .restart hev hi hw hx rfl rfl rfl

theorem stop_effect (h : Sound s.wrappers s.natives) {w : Wrapper}
    (hi : s.wrappers.live i = some w)
    (ht : t = match w with
      | .mmap m => s.stopMmap i m
      | .inventory b => s.stopInventory i b) : Effect s (.stop i) t := by
  subst ht
  cases hw : w.handle with
  | none =>
      cases w with
      | mmap m =>
          have hm : m.mmap_ = none := hw
          simp only [State.stopMmap, hm]
          exact .exit rfl
      | inventory b =>
          have hflag : b.started_ = false := h.idle hi hw
          simp only [State.stopInventory, hflag, Bool.false_eq_true, if_false]
          exact .same rfl
  | some n =>
      obtain ⟨x, hx, -, hlive, hflag⟩ := h.native hi hw
      cases w with
      | mmap m =>
          have hm : m.mmap_ = some n := hw
          have hflag' : m.started_ = x.started := hflag
          cases hstarted : x.started with
          | true =>
              simp only [State.stopMmap, hm, hflag', hstarted, Bool.not_true, Bool.false_eq_true,
                if_false, stopNative_eq hx hlive hstarted]
              exact .restart rfl hi hw hx rfl rfl rfl
          | false =>
              simp only [State.stopMmap, hm, hflag', hstarted, Bool.not_false, if_true]
              exact .same rfl
      | inventory b =>
          have hb : b.inventory_ = some n := hw
          have hflag' : b.started_ = x.started := hflag
          cases hstarted : x.started with
          | true =>
              simp only [State.stopInventory, hb, hflag', hstarted, if_true,
                stopNative_eq hx hlive hstarted]
              exact .restart rfl hi hw hx rfl rfl rfl
          | false =>
              simp only [State.stopInventory, hflag', hstarted, Bool.false_eq_true, if_false]
              exact .same rfl

theorem setFreeCallback_effect (h : Sound s.wrappers s.natives) (hrun : s.exited = false)
    {m : MMap} (hi : s.wrappers.live i = some (.mmap m)) (callback : Nat) (ok : Bool) :
    Effect s (.setFreeCallback i callback ok) (s.setFreeCallback i m callback ok) := by
  cases hm : m.mmap_ with
  | none =>
      simp only [State.setFreeCallback, hm]
      exact .exit rfl
  | some n =>
      obtain ⟨x, hx, -, hlive, -⟩ := h.native hi hm
      have heffect : Effect s (.setFreeCallback i callback ok) _ := .setFreeCallback ok hi hm hx
      cases ok <;>
        simpa [State.setFreeCallback, State.setFreeCb, State.assign, State.setNative, State.exit,
          hm, hx, hlive, hrun] using heffect

theorem release_effect (h : Sound s.wrappers s.natives) {m : MMap}
    (hi : s.wrappers.live i = some (.mmap m)) : Effect s (.release i) (s.release i m) := by
  cases hm : m.mmap_ with
  | none =>
      simp only [State.release, hm]
      exact .releaseNothing hi hm
  | some n =>
      obtain ⟨x, hx, -⟩ := h.native hi hm
      simp only [State.release, hm, State.assign]
      rw [modify_eq_set hx]
      exact .release hi hm hx

theorem step_effect (h : Sound s.wrappers s.natives) {ev : Event} (hstep : step s ev = some t) :
    s.exited = false ∧ Effect s ev t := by
  unfold step at hstep
  split at hstep
  · simp at hstep
  · next hexited =>
      have hrun : s.exited = false := by simpa using hexited
      refine ⟨hrun, ?_⟩
      cases ev with
      | mmap => exact Option.some.inj hstep ▸ .create rfl rfl rfl rfl
      | mmapFromExport => exact Option.some.inj hstep ▸ .create rfl rfl rfl rfl
      | inventory => exact Option.some.inj hstep ▸ .create rfl rfl rfl rfl
      | start i again =>
          simp only at hstep
          split at hstep
          · next m hi => exact start_effect h rfl hi (Option.some.inj hstep).symm
          · next b hi => exact start_effect h rfl hi (Option.some.inj hstep).symm
          · simp at hstep
      | stop i =>
          simp only at hstep
          split at hstep
          · next m hi => exact stop_effect h hi (Option.some.inj hstep).symm
          · next b hi => exact stop_effect h hi (Option.some.inj hstep).symm
          · simp at hstep
      | moveConstruct j =>
          obtain ⟨w, hj, rfl⟩ := Option.map_eq_some_iff.mp hstep
          exact .moveConstruct hj
      | moveAssign i j =>
          simp only at hstep
          split at hstep
          · next w other hi hj =>
              split at hstep
              · simp at hstep
              · split at hstep
                · exact Option.some.inj hstep ▸ .same rfl
                · next hij =>
                    obtain rfl := Option.some.inj hstep
                    rw [finish_eq h hi]
                    exact .moveAssign hi hj (Ne.symm hij)
          · simp at hstep
      | setFreeCallback i callback ok =>
          simp only at hstep
          split at hstep
          · next m hi =>
              exact Option.some.inj hstep ▸ setFreeCallback_effect h hrun hi callback ok
          · simp at hstep
      | release i =>
          simp only at hstep
          split at hstep
          · next m hi => exact Option.some.inj hstep ▸ release_effect h hi
          · simp at hstep
      | destroy i =>
          obtain ⟨w, hi, rfl⟩ := Option.map_eq_some_iff.mp hstep
          rw [finish_eq h hi]
          exact .destroy hi
      | callerDestroy n =>
          simp only [State.callerDestroy] at hstep
          split at hstep
          · next x hx =>
              obtain ⟨⟨hreleased, hlive⟩, hsome⟩ := Option.ite_none_right_eq_some.mp hstep
              obtain rfl := Option.some.inj hsome
              have heffect := Effect.callerDestroy hx hreleased hlive
              rw [retire, modify_eq_set hx] at heffect
              simpa [State.invoke, State.setNative, State.invoked, hx] using heffect
          · simp at hstep

theorem Effect.sound {ev : Event} (heffect : Effect s ev t) (h : Sound s.wrappers s.natives) :
    Sound t.wrappers t.natives := by
  cases heffect with
  | create _ hw hb _ => exact h.create ⟨rfl, rfl⟩ hw hb
  | same _ => exact h
  | exit _ => exact h
  | restart _ hi hw hx hw' hb _ => exact h.restart hi hw hx rfl rfl hw' hb
  | moveConstruct hj => exact h.moveCreate hj
  | @moveAssign i j w other hi hj hij =>
      have hfree := h.retire hi
      have hi' := Store.live_assign_self hi w.moved
      have hj' := Store.live_assign_of_ne hi hj hij w.moved
      have hmoved := hfree.moveAssign hi' hj' hij (Sound.moved_handle w)
      rwa [Store.assign_assign] at hmoved
  | @destroy i w hi =>
      have hfree := h.retire hi
      have hi' := Store.live_assign_self hi w.moved
      have hgone := hfree.destroy hi' (Sound.moved_handle w)
      rwa [Store.destroy_assign] at hgone
  | @setFreeCallback i n callback m x ok hi hm hx =>
      have hflag : m.started_ = x.started := by
        obtain ⟨y, hy, -, -, hflag⟩ := h.native hi hm
        rw [Option.some.inj (hx.symm.trans hy)]
        exact hflag
      cases ok with
      | true => exact h.restart hi hm hx rfl rfl hm hflag
      | false => exact h.keep hi rfl rfl
  | releaseNothing hi hm => exact h.keep hi hm.symm (h.idle hi hm).symm
  | @release i n m x hi hm hx =>
      have honce := h.once n x hx
      exact h.giveUp hi hm hx (.inl rfl) honce rfl rfl
  | @callerDestroy n x hx hreleased hlive =>
      show Sound s.wrappers (retire s.natives (some n))
      rw [retire, modify_eq_set hx]
      refine h.set_of_not_owed hx ?_ (by simp) le_rfl
      rintro ⟨y, hy, hnot, -⟩
      rw [← Option.some.inj (hx.symm.trans hy), hreleased] at hnot
      simp at hnot

theorem Effect.faults {ev : Event} (heffect : Effect s ev t) : t.faults = s.faults := by
  cases heffect <;> rfl

end Steps

/-- One owner for each handle, flags that tell the truth, and every native destroyed
in time. -/
structure Tidy (s : State) : Prop where
  /-- A native is held by at most one object. -/
  owner : ∀ i j v w n, s.wrappers.live i = some v → s.wrappers.live j = some w →
    v.handle = some n → w.handle = some n → j = i
  /-- `is_started` of an object with a native, which is not destroyed. -/
  started : ∀ i w n, s.wrappers.live i = some w → w.handle = some n →
    ∃ x, s.natives[n]? = some x ∧ x.destroys = 0 ∧ w.isStarted = x.started
  /-- `is_started` of an object without one. -/
  idle : ∀ i w, s.wrappers.live i = some w → w.handle = none → w.isStarted = false
  /-- Only a started native is stopped, no started native is destroyed by an object,
  and none is used after that. -/
  faults : s.faults = []
  /-- No native is destroyed twice. -/
  once : ∀ (n : Nat) (x : Native), s.natives[n]? = some x → x.destroys ≤ 1
  /-- Without objects every native that was not released is destroyed. -/
  gone : (∀ i, s.wrappers.live i = none) →
    ∀ (n : Nat) (x : Native), s.natives[n]? = some x → x.released = false → x.destroys = 1

theorem Sound.tidy {s : State} (h : Sound s.wrappers s.natives) (hfaults : s.faults = []) :
    Tidy s := by
  refine ⟨fun i j v w n hi hj hv hw => h.balanced.unique hi hj hv hw, fun i w n hi hw => ?_,
    fun i w hi hw => h.idle hi hw, hfaults, h.once, fun hnone n x hx hreleased => ?_⟩
  · obtain ⟨x, hx, -, hlive, hflag⟩ := h.native hi hw
    exact ⟨x, hx, hlive, hflag⟩
  · have hle := h.once n x hx
    by_contra hdestroys
    obtain ⟨i, w, hi, -⟩ := h.balanced.exists_live (r := n) ⟨x, hx, hreleased, by omega⟩
    simp [hnone i] at hi

/-- Whatever a program does with its mmaps and inventories, they are tidy. -/
theorem tidy_of_reachable {s : State} (hs : machine.Reachable s) : Tidy s := by
  have hinv := hs.invariant (I := fun s => Sound s.wrappers s.natives ∧ s.faults = [])
    ⟨Sound.init, rfl⟩ ?_
  · exact hinv.1.tidy hinv.2
  · rintro s ev t ⟨h, hfaults⟩ hstep
    obtain ⟨-, heffect⟩ := step_effect h hstep
    exact ⟨heffect.sound h, heffect.faults.trans hfaults⟩

/-- A started inventory is assigned to a started one, and both objects go. -/
theorem tidy_of_reachable_inventories :
    Tidy ⟨[none, none], [⟨false, 1, false, none, none⟩, ⟨false, 1, false, none, none⟩], [], [], [],
      false⟩ :=
  tidy_of_reachable ⟨[.inventory, .start 0 false, .inventory, .start 1 false, .moveAssign 0 1,
    .stop 0, .destroy 1, .destroy 0], by decide⟩

end Lifecycle
end DocaStdexec
