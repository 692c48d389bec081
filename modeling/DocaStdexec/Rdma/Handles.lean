import DocaStdexec.Lib.Machine
import DocaStdexec.Lib.Store
import DocaStdexec.Lib.Trace
import DocaStdexec.Rdma.ConnectionSender

/-!
# The order in which handles tear down

`shared_ptr<Device>`, `shared_ptr<Rdma>`, `RdmaConnection` and `MMap` own native
DOCA objects that depend on each other.  A destructor destroys the members of its
class in reverse order of declaration, and a `shared_ptr` destroys its object
with the last owner; `MMap` cleans up by hand.

`Rdma` declares the native `rdma` before `dev`, and `RdmaConnection` declares
`connection` before `rdma`: their destructors release what the native object
depends on first.  The machine logs the native calls of a program that creates,
copies, moves, assigns and destroys such handles.
-/

namespace DocaStdexec
namespace Handles

open Lib
open ConnectionSender (RdmaConnection)

/-- The native calls, on objects that are numbered as they are created. -/
inductive Native
  | openDev (dev : Nat)
  | closeDev (dev : Nat)
  | createRdma (rdma dev : Nat)
  | destroyRdma (rdma : Nat)
  | exportCtx (connection rdma : Nat)
  | disconnect (connection : Nat)
  | createMmap (mmap : Nat)
  /-- `doca_mmap_create_from_export` or `doca_mmap_add_dev`. -/
  | addDev (mmap dev : Nat)
  | rmDev (mmap dev : Nat)
  | startMmap (mmap : Nat)
  | stopMmap (mmap : Nat)
  | destroyMmap (mmap : Nat)
  /-- `MMap::release` hands the mmap to the caller. -/
  | handOut (mmap : Nat)
  deriving DecidableEq

/-- The mmap was created on the device or had it added, and not removed since. -/
def attached (log : List Native) (mmap dev : Nat) : Bool :=
  log.foldl (fun on x =>
    if x = .addDev mmap dev then true else if x = .rmDev mmap dev then false else on) false

/-- A device is closed after every rdma and every mmap on it is destroyed, and an
rdma is destroyed after its connections are disconnected. -/
def Ordered (pre : List Native) : Native → Prop
  | .closeDev dev =>
      (∀ rdma, .createRdma rdma dev ∈ pre → .destroyRdma rdma ∈ pre) ∧
        ∀ mmap, attached pre mmap dev → .destroyMmap mmap ∈ pre ∨ .handOut mmap ∈ pre
  | .destroyRdma rdma =>
      ∀ connection, .exportCtx connection rdma ∈ pre → .disconnect connection ∈ pre
  | _ => True

/-- `MMap`. -/
structure MMap where
  mmap_ : Option Nat
  started_ : Bool
  devices_ : List Nat
  deriving DecidableEq

/-- A handle; a `shared_ptr` may be null. -/
inductive Handle
  | device (p : Option Nat)
  | rdma (p : Option Nat)
  | connection (c : RdmaConnection Nat Nat)
  | mmap (m : MMap)

namespace Handle

/-- How many `shared_ptr<Device>` to this device the handle contains. -/
def ownsDevice (dev : Nat) : Handle → Nat
  | device p => if p = some dev then 1 else 0
  | mmap m => m.devices_.count dev
  | _ => 0

/-- How many `shared_ptr<Rdma>` to this rdma the handle contains. -/
def ownsRdma (r : Nat) : Handle → Nat
  | rdma p => if p = some r then 1 else 0
  | connection c => if c.rdma = some r then 1 else 0
  | _ => 0

/-- What a move leaves behind. -/
def moved : Handle → Handle
  | device _ => device none
  | rdma _ => rdma none
  | connection _ => connection .moved
  | mmap _ => mmap ⟨none, false, []⟩

def sameKind : Handle → Handle → Bool
  | device _, device _ | rdma _, rdma _ | connection _, connection _ | mmap _, mmap _ => true
  | _, _ => false

/-- The type has a copy constructor and a copy assignment. -/
def copyable : Handle → Bool
  | device _ | rdma _ => true
  | _ => false

end Handle

/-- The handles, the member `dev` of each live `Rdma` object, how many native
objects of the other kinds were created, and the log. -/
structure State where
  handles : Store Handle
  rdmas : Store Nat
  devices : Nat
  connections : Nat
  mmaps : Nat
  log : List Native

namespace State

def init : State := ⟨[], [], 0, 0, 0, []⟩

def record (s : State) (calls : List Native) : State := { s with log := s.log ++ calls }

/-- The owners of a `Device`: handles and `Rdma` objects. -/
def deviceOwners (s : State) (dev : Nat) : Nat :=
  s.handles.tally (fun h => h.ownsDevice dev) + s.rdmas.tally (fun d => if d = dev then 1 else 0)

/-- The owners of an `Rdma`. -/
def rdmaOwners (s : State) (r : Nat) : Nat := s.handles.tally (fun h => h.ownsRdma r)

/-- The destructors of some `shared_ptr<Device>` that no handle contains any more,
one after the other: the last owner of a device closes it. -/
def releaseDevices (s : State) : List Nat → State
  | [] => s
  | dev :: rest =>
      -- the pointers of `rest` are still alive
      if s.deviceOwners dev + rest.count dev = 0 then
        releaseDevices (s.record [.closeDev dev]) rest
      else releaseDevices s rest

/-- `~Rdma`: the member `dev` goes before the member `rdma`. -/
def destroyRdma (s : State) (r : Nat) : State :=
  (releaseDevices { s with rdmas := s.rdmas.destroy r } (s.rdmas.live r).toList).record
    [.destroyRdma r]

/-- The destructor of a `shared_ptr<Rdma>` that no handle contains any more. -/
def releaseRdma (s : State) : Option Nat → State
  | none => s
  | some r => if s.rdmaOwners r = 0 then s.destroyRdma r else s

/-- `MMap::cleanup` of a value that is no longer in its handle. -/
def cleanupMmap (s : State) (m : MMap) : State :=
  match m.mmap_ with
  | some mmap =>
      ((if m.started_ then s.record [.stopMmap mmap] else s).record
        [.destroyMmap mmap]).releaseDevices m.devices_
  | none => s.releaseDevices m.devices_

/-- The destructor of a handle that held `h`: the member `rdma` of an
`RdmaConnection` goes before the member `connection`. -/
def destructor (s : State) : Handle → State
  | .device p => s.releaseDevices p.toList
  | .rdma p => s.releaseRdma p
  | .connection c => (s.releaseRdma c.rdma).record (c.connection.toList.map .disconnect)
  | .mmap m => s.cleanupMmap m

/-- What an assignment does to the old value `h`: the members of an
`RdmaConnection` are assigned in order of declaration. -/
def overwritten (s : State) : Handle → State
  | .device p => s.releaseDevices p.toList
  | .rdma p => s.releaseRdma p
  | .connection c => (s.record (c.connection.toList.map .disconnect)).releaseRdma c.rdma
  | .mmap m => s.cleanupMmap m

end State

/-- Pass the `shared_ptr<Device>` of handle `i` by value. -/
def passDevice (handles : Store Handle) (i : Nat) (moved : Bool) : Store Handle :=
  if moved then handles.assign i (.device none) else handles

inductive Event
  /-- `Device::open_from_pci` or `open_from_ib_name`. -/
  | openDevice
  /-- A null `shared_ptr`. -/
  | nullDevice
  | nullRdma
  | openFromDev (i : Nat) (moved : Bool)
  | exportCtx (i : Nat)
  /-- `MMap()`. -/
  | mmap
  /-- `MMap::create_from_export`. -/
  | mmapFromExport (i : Nat) (moved : Bool)
  | addDevice (i j : Nat) (moved : Bool)
  | removeDevice (i j : Nat) (moved : Bool)
  | start (i : Nat)
  | stop (i : Nat)
  /-- `MMap::release`. -/
  | release (i : Nat)
  | copy (i : Nat)
  /-- Copy the member `dev` of the `Rdma` that handle `i` points to. -/
  | copyDev (i : Nat)
  /-- Copy the member `rdma` of an `RdmaConnection`. -/
  | copyRdma (i : Nat)
  | move (i : Nat)
  | copyAssign (i j : Nat)
  | moveAssign (i j : Nat)
  | destroy (i : Nat)
  deriving DecidableEq

/-- One operation; each native call succeeds, or `check_error` ends the process. -/
def step (s : State) : Event → Option State
  | .openDevice =>
      some { s.record [.openDev s.devices] with
        handles := s.handles.create (.device (some s.devices))
        devices := s.devices + 1 }
  | .nullDevice => some { s with handles := s.handles.create (.device none) }
  | .nullRdma => some { s with handles := s.handles.create (.rdma none) }
  | .openFromDev i moved =>
      match s.handles.live i with
      | some (.device (some dev)) =>
          some { s.record [.createRdma s.rdmas.length dev] with
            handles := (passDevice s.handles i moved).create (.rdma (some s.rdmas.length))
            rdmas := s.rdmas.create dev }
      | _ => none
  | .exportCtx i =>
      match s.handles.live i with
      | some (.rdma (some r)) =>
          some { s.record [.exportCtx s.connections r] with
            handles := s.handles.create (.connection ⟨some s.connections, some r⟩)
            connections := s.connections + 1 }
      | _ => none
  | .mmap =>
      some { s.record [.createMmap s.mmaps] with
        handles := s.handles.create (.mmap ⟨some s.mmaps, false, []⟩)
        mmaps := s.mmaps + 1 }
  | .mmapFromExport i moved =>
      match s.handles.live i with
      | some (.device (some dev)) =>
          some { s.record [.createMmap s.mmaps, .addDev s.mmaps dev] with
            handles := (passDevice s.handles i moved).create (.mmap ⟨some s.mmaps, true, [dev]⟩)
            mmaps := s.mmaps + 1 }
      | _ => none
  | .addDevice i j moved =>
      match s.handles.live i, s.handles.live j with
      | some (.mmap ⟨some m, started, devices⟩), some (.device (some dev)) =>
          some { s.record [.addDev m dev] with
            handles := (passDevice s.handles j moved).assign i
              (.mmap ⟨some m, started, devices ++ [dev]⟩) }
      | _, _ => none
  | .removeDevice i j moved =>
      match s.handles.live i, s.handles.live j with
      | some (.mmap ⟨some m, started, devices⟩), some (.device (some dev)) =>
          some (State.releaseDevices
            { s.record [.rmDev m dev] with
              handles := (passDevice s.handles j moved).assign i
                (.mmap ⟨some m, started, devices.erase dev⟩) } [dev])
      | _, _ => none
  | .start i =>
      match s.handles.live i with
      | some (.mmap ⟨some m, started, devices⟩) =>
          if started then some s
          else
            some { s.record [.startMmap m] with
              handles := s.handles.assign i (.mmap ⟨some m, true, devices⟩) }
      | _ => none
  | .stop i =>
      match s.handles.live i with
      | some (.mmap ⟨some m, started, devices⟩) =>
          if started then
            some { s.record [.stopMmap m] with
              handles := s.handles.assign i (.mmap ⟨some m, false, devices⟩) }
          else some s
      | _ => none
  | .release i =>
      match s.handles.live i with
      | some (.mmap m) =>
          some (State.releaseDevices
            { s.record (m.mmap_.toList.map .handOut) with
              handles := s.handles.assign i (.mmap ⟨none, false, []⟩) } m.devices_)
      | _ => none
  | .copy i =>
      (s.handles.live i).bind fun h =>
        if h.copyable then some { s with handles := s.handles.create h } else none
  | .copyDev i =>
      match s.handles.live i with
      | some (.rdma (some r)) =>
          some { s with handles := s.handles.create (.device (s.rdmas.live r)) }
      | _ => none
  | .copyRdma i =>
      match s.handles.live i with
      | some (.connection c) => some { s with handles := s.handles.create (.rdma c.rdma) }
      | _ => none
  | .move i =>
      (s.handles.live i).map fun h =>
        { s with handles := (s.handles.assign i h.moved).create h }
  | .copyAssign i j =>
      match s.handles.live i, s.handles.live j with
      | some this, some other =>
          if this.sameKind other ∧ this.copyable then
            if i = j then some s
            else some (State.overwritten { s with handles := s.handles.assign i other } this)
          else none
      | _, _ => none
  | .moveAssign i j =>
      match s.handles.live i, s.handles.live j with
      | some this, some other =>
          if this.sameKind other then
            if i = j then some s
            else
              some (State.overwritten
                { s with handles := (s.handles.assign i other).assign j other.moved } this)
          else none
      | _, _ => none
  | .destroy i =>
      (s.handles.live i).map fun h =>
        State.destructor { s with handles := s.handles.destroy i } h

def machine : Machine State Event := ⟨State.init, step⟩

/-- The handle whose value an operation destroys, with a destructor or by an
assignment. -/
def released (s : State) : Event → Option (Handle × Bool)
  | .destroy i => (s.handles.live i).map fun h => (h, true)
  | .copyAssign i j | .moveAssign i j =>
      if i = j then none else (s.handles.live i).map fun h => (h, false)
  | _ => none

/-- The `shared_ptr<Rdma>` of a handle. -/
def Handle.rdmaPointer : Handle → Option Nat
  | .rdma p => p
  | .connection c => c.rdma
  | _ => none

/-- The handle is an `RdmaConnection` that still has its connection. -/
def Handle.connected : Handle → Bool
  | .connection c => c.connection.isSome
  | _ => false

/-- The operation does not destroy the last owner of an `Rdma` whose member `dev`
is the last owner of its device, and no `RdmaConnection` that still has its
connection while its member `rdma` is the last owner of the `Rdma`. -/
def KeepsOrder (s : State) (ev : Event) : Prop :=
  ∀ x ∈ released s ev, ∀ r ∈ x.1.rdmaPointer, s.rdmaOwners r = 1 →
    (∀ dev ∈ s.rdmas.live r, 2 ≤ s.deviceOwners dev) ∧ (x.2 = true → x.1.connected = false)

instance (s : State) (ev : Event) : Decidable (KeepsOrder s ev) :=
  inferInstanceAs (Decidable (∀ x ∈ released s ev, ∀ r ∈ x.1.rdmaPointer, s.rdmaOwners r = 1 →
    (∀ dev ∈ s.rdmas.live r, 2 ≤ s.deviceOwners dev) ∧ (x.2 = true → x.1.connected = false)))

/-! ## What the log says of the handles -/

@[simp] theorem attached_concat (log : List Native) (x : Native) (m dev : Nat) :
    attached (log ++ [x]) m dev =
      if x = .addDev m dev then true
      else if x = .rmDev m dev then false else attached log m dev := by
  simp [attached]

/-- The handle is alive, or its value is still being destroyed. -/
def Held (s : State) (limbo : List Handle) (h : Handle) : Prop :=
  (∃ i, s.handles.live i = some h) ∨ h ∈ limbo

/-- The handle holds a native object of its own. -/
def Handle.native : Handle → Bool
  | .connection c => c.connection.isSome
  | .mmap m => m.mmap_.isSome
  | _ => false

/-- What is not destroyed yet is owned: an rdma by its object, and a connection
or an mmap by a handle that also owns what the native object depends on. -/
structure Inv (s : State) (limbo : List Handle) : Prop where
  rdma : ∀ r dev, .createRdma r dev ∈ s.log →
    .destroyRdma r ∈ s.log ∨ s.rdmas.live r = some dev
  connection : ∀ c r, .exportCtx c r ∈ s.log →
    .disconnect c ∈ s.log ∨ Held s limbo (.connection ⟨some c, some r⟩)
  mmap : ∀ m dev, attached s.log m dev →
    .destroyMmap m ∈ s.log ∨ .handOut m ∈ s.log ∨
      ∃ mm : MMap, Held s limbo (.mmap mm) ∧ mm.mmap_ = some m ∧ dev ∈ mm.devices_

/-- The calls that create or attach a native object. -/
def Native.creates : Native → Bool
  | .createRdma _ _ | .exportCtx _ _ | .addDev _ _ => true
  | _ => false

variable {s t : State} {limbo : List Handle}

/-- A call may be logged when what it creates or attaches is owned. -/
theorem Inv.record_of (h : Inv s limbo) (x : Native)
    (hcreate : ∀ r dev, x = .createRdma r dev → s.rdmas.live r = some dev)
    (hexport : ∀ c r, x = .exportCtx c r → Held s limbo (.connection ⟨some c, some r⟩))
    (hadd : ∀ m dev, x = .addDev m dev →
      ∃ mm : MMap, Held s limbo (.mmap mm) ∧ mm.mmap_ = some m ∧ dev ∈ mm.devices_) :
    Inv (s.record [x]) limbo := by
  obtain ⟨hrdma, hconnection, hmmap⟩ := h
  have hmem {y : Native} : y ∈ s.log → y ∈ (s.record [x]).log := List.mem_append_left _
  have hcases {y : Native} (hy : y ∈ (s.record [x]).log) : y ∈ s.log ∨ x = y := by
    simpa [State.record, eq_comm] using hy
  refine ⟨fun r dev hlog => ?_, fun c r hlog => ?_, fun m dev hlog => ?_⟩
  · rcases hcases hlog with hold | hnew
    · exact (hrdma r dev hold).imp_left hmem
    · exact .inr (hcreate r dev hnew)
  · rcases hcases hlog with hold | hnew
    · exact (hconnection c r hold).imp_left hmem
    · exact .inr (hexport c r hnew)
  · -- the last `addDev` or `rmDev` of the pair decides
    simp only [State.record, attached_concat] at hlog
    split at hlog
    · next hnew => exact .inr (.inr (hadd m dev hnew))
    · split at hlog
      · simp at hlog
      · exact (hmmap m dev hlog).imp hmem (Or.imp_left hmem)

/-- Any other call only takes away. -/
theorem Inv.record (h : Inv s limbo) {x : Native} (hx : x.creates = false) :
    Inv (s.record [x]) limbo := by
  refine h.record_of x ?_ ?_ ?_
  · rintro r dev rfl
    simp [Native.creates] at hx
  · rintro c r rfl
    simp [Native.creates] at hx
  · rintro m dev rfl
    simp [Native.creates] at hx

/-- The handles may change as long as those with a native object stay held. -/
theorem Inv.mono {limbo' : List Handle} (h : Inv s limbo) (hlog : t.log = s.log)
    (hrdmas : t.rdmas = s.rdmas)
    (hheld : ∀ x, x.native → Held s limbo x → Held t limbo' x) : Inv t limbo' := by
  obtain ⟨hrdma, hconnection, hmmap⟩ := h
  refine ⟨?_, fun c r hc => ?_, fun m dev hm => ?_⟩
  · rw [hlog, hrdmas]
    exact hrdma
  · rw [hlog] at hc ⊢
    exact (hconnection c r hc).imp_right (hheld _ rfl)
  · rw [hlog] at hm ⊢
    refine (hmmap m dev hm).imp_right (Or.imp_right ?_)
    rintro ⟨mm, hmm, hsome, hdev⟩
    exact ⟨mm, hheld _ (by simp [Handle.native, hsome]) hmm, hsome, hdev⟩

/-! ## Releasing owners -/

theorem releaseDevices_of_owned {devs : List Nat} (h : ∀ dev ∈ devs, s.deviceOwners dev ≠ 0) :
    s.releaseDevices devs = s := by
  induction devs with
  | nil => rfl
  | cons dev devs ih =>
      have hdev := h dev List.mem_cons_self
      rw [State.releaseDevices, if_neg (by omega)]
      exact ih fun dev' hdev' => h dev' (List.mem_cons_of_mem _ hdev')

/-- A device without owners has nothing on it any more, so it may be closed. -/
theorem Inv.ordered_closeDev (h : Inv s []) {dev : Nat} (hdev : s.deviceOwners dev = 0) :
    Ordered s.log (.closeDev dev) := by
  obtain ⟨hrdma, -, hmmap⟩ := h
  obtain ⟨hhandles, hrdmas⟩ := Nat.add_eq_zero_iff.mp hdev
  refine ⟨fun r hr => (hrdma r dev hr).resolve_right fun hlive => ?_, fun m hm => ?_⟩
  · have hle := Store.le_tally hlive (fun d => if d = dev then 1 else 0)
    simp only [if_true] at hle
    omega
  · rcases hmmap m dev hm with hgone | hgone | ⟨mm, hheld, -, hmem⟩
    · exact .inl hgone
    · exact .inr hgone
    · obtain ⟨i, hi⟩ := hheld.resolve_right (by simp)
      have hle := Store.le_tally hi (fun h => h.ownsDevice dev)
      have hpos : 0 < (Handle.mmap mm).ownsDevice dev := List.count_pos_iff.mpr hmem
      omega

/-- Releasing owners of devices keeps the order. -/
theorem Inv.releaseDevices (h : Inv s []) (hlog : Justified Ordered s.log) (devs : List Nat) :
    Inv (s.releaseDevices devs) [] ∧ Justified Ordered (s.releaseDevices devs).log := by
  induction devs generalizing s with
  | nil => exact ⟨h, hlog⟩
  | cons dev devs ih =>
      rw [State.releaseDevices]
      split
      · next hzero =>
          have hclose : Ordered s.log (.closeDev dev) := h.ordered_closeDev (by omega)
          exact ih (h.record rfl) (Justified.concat_iff.mpr ⟨hlog, hclose⟩)
      · exact ih h hlog

/-- The last owner of an `Rdma` may go when its device keeps another owner. -/
theorem Inv.releaseRdma (h : Inv s []) (hlog : Justified Ordered s.log) (p : Option Nat)
    (hkeeps : ∀ r, p = some r → s.rdmaOwners r = 0 → ∀ dev, s.rdmas.live r = some dev →
      2 ≤ s.deviceOwners dev) :
    Inv (s.releaseRdma p) [] ∧ Justified Ordered (s.releaseRdma p).log := by
  cases p with
  | none => exact ⟨h, hlog⟩
  | some r =>
      rw [State.releaseRdma]
      split
      · next hzero =>
          -- the device keeps an owner, so the member `dev` closes nothing
          have hdevices : State.releaseDevices { s with rdmas := s.rdmas.destroy r }
              (s.rdmas.live r).toList = { s with rdmas := s.rdmas.destroy r } := by
            refine releaseDevices_of_owned fun dev hdev => ?_
            have hlive : s.rdmas.live r = some dev := by simpa using hdev
            have htwo := hkeeps r rfl hzero dev hlive
            have hdestroy := Store.tally_destroy hlive (fun d => if d = dev then 1 else 0)
            simp only [if_true] at hdestroy
            simp only [State.deviceOwners] at htwo ⊢
            omega
          rw [State.destroyRdma, hdevices]
          constructor
          · have hrecord := h.record (x := .destroyRdma r) rfl
            refine ⟨fun r' dev hcreated => ?_, hrecord.connection, hrecord.mmap⟩
            by_cases hr : r' = r
            · exact .inl (by simp [State.record, hr])
            · refine (hrecord.rdma r' dev hcreated).imp_right fun hlive => ?_
              exact (Store.live_destroy s.rdmas r r').trans ((if_neg hr).trans hlive)
          · refine Justified.concat_iff.mpr ⟨hlog, fun c hc => ?_⟩
            refine (h.connection c r hc).resolve_right fun hheld => ?_
            -- a handle with an open connection would be one more owner of the rdma
            obtain ⟨i, hi⟩ := hheld.resolve_right (by simp)
            have hle := Store.le_tally hi (fun h => h.ownsRdma r)
            have hone : (Handle.connection ⟨some c, some r⟩).ownsRdma r = 1 := by
              simp [Handle.ownsRdma]
            simp only [State.rdmaOwners] at hzero
            omega
      · exact ⟨h, hlog⟩

/-! ## Values that leave their handle -/

/-- Where one handle changes, its old value is the only one that may be lost. -/
theorem held_of_live_ne {handles : Store Handle} {i : Nat} {old : Handle}
    (hi : s.handles.live i = some old)
    (hother : ∀ j, j ≠ i → handles.live j = s.handles.live j) {h : Handle}
    (hheld : Held s limbo h) : Held { s with handles := handles } (old :: limbo) h := by
  rcases hheld with ⟨j, hj⟩ | hlimbo
  · by_cases hji : j = i
    · subst hji
      obtain rfl := Option.some.inj (hi.symm.trans hj)
      exact .inr List.mem_cons_self
    · exact .inl ⟨j, (hother j hji).trans hj⟩
  · exact .inr (List.mem_cons_of_mem _ hlimbo)

theorem held_assign {i : Nat} {old x : Handle} (hi : s.handles.live i = some old) {h : Handle}
    (hheld : Held s limbo h) :
    Held { s with handles := s.handles.assign i x } (old :: limbo) h :=
  held_of_live_ne hi (fun j hj => by rw [Store.live_assign hi, if_neg hj]) hheld

theorem held_destroy {i : Nat} {old : Handle} (hi : s.handles.live i = some old) {h : Handle}
    (hheld : Held s limbo h) :
    Held { s with handles := s.handles.destroy i } (old :: limbo) h :=
  held_of_live_ne hi (fun j hj => by rw [Store.live_destroy, if_neg hj]) hheld

theorem held_create (x : Handle) {h : Handle} (hheld : Held s limbo h) :
    Held { s with handles := s.handles.create x } limbo h := by
  refine hheld.imp_left ?_
  rintro ⟨i, hi⟩
  exact ⟨i, Store.live_create_of_live hi x⟩

/-- A value that holds no native object of its own is nothing to wait for. -/
theorem Inv.drop_limbo {h : Handle} (hinv : Inv s (h :: limbo)) (hnative : h.native = false) :
    Inv s limbo :=
  hinv.mono rfl rfl fun x hx hheld => hheld.imp_right fun hmem =>
    (List.mem_cons.mp hmem).resolve_left fun heq => by simp [← heq, hx] at hnative

/-- A value that is in another handle now is alive again. -/
theorem Inv.live_limbo {h : Handle} (hinv : Inv s (h :: limbo)) {i : Nat}
    (hi : s.handles.live i = some h) : Inv s limbo :=
  hinv.mono rfl rfl fun x _ hheld => by
    rcases hheld with hlive | hmem
    · exact .inl hlive
    · rcases List.mem_cons.mp hmem with rfl | hmem
      · exact .inl ⟨i, hi⟩
      · exact .inr hmem

/-- The disconnected connection needs no handle any more. -/
theorem Inv.disconnect {c : RdmaConnection Nat Nat} (hinv : Inv s (.connection c :: limbo)) :
    Inv (s.record (c.connection.toList.map .disconnect)) limbo := by
  obtain ⟨connection, rdma⟩ := c
  cases connection with
  | none =>
      exact (hinv.drop_limbo rfl).mono (by simp [State.record]) rfl fun _ _ h => h
  | some c =>
      obtain ⟨hrdma, hconnection, hmmap⟩ := hinv.record (x := .disconnect c) rfl
      refine ⟨hrdma, fun c' r hlog => ?_, fun m dev hlog => ?_⟩
      · rcases hconnection c' r hlog with hgone | hlive | hmem
        · exact .inl hgone
        · exact .inr (.inl hlive)
        · rcases List.mem_cons.mp hmem with heq | hmem
          · obtain ⟨rfl, -⟩ : c' = c ∧ _ := by simpa using heq
            exact .inl (by simp [State.record])
          · exact .inr (.inr hmem)
      · refine (hmmap m dev hlog).imp_right (Or.imp_right ?_)
        rintro ⟨mm, hheld, hmm⟩
        exact ⟨mm, hheld.imp_right fun hmem => (List.mem_cons.mp hmem).resolve_left (by simp), hmm⟩

/-- An mmap that is destroyed or handed out needs no handle any more. -/
theorem Inv.give_up {mm : MMap} {m : Nat} (hinv : Inv s (.mmap mm :: limbo))
    (hmm : mm.mmap_ = some m) {x : Native} (hx : x = .destroyMmap m ∨ x = .handOut m) :
    Inv (s.record [x]) limbo := by
  have hcreates : x.creates = false := by obtain rfl | rfl := hx <;> rfl
  obtain ⟨hrdma, hconnection, hmmap⟩ := hinv.record hcreates
  refine ⟨hrdma, fun c r hlog => ?_, fun m' dev hlog => ?_⟩
  · refine (hconnection c r hlog).imp_right ?_
    exact Or.imp_right fun hmem => (List.mem_cons.mp hmem).resolve_left (by simp)
  · have hlast : x ∈ (s.record [x]).log := by simp [State.record]
    rcases hmmap m' dev hlog with hgone | hgone | ⟨mm', hheld, hmm', hdev⟩
    · exact .inl hgone
    · exact .inr (.inl hgone)
    · rcases hheld with hlive | hmem
      · exact .inr (.inr ⟨mm', .inl hlive, hmm', hdev⟩)
      · rcases List.mem_cons.mp hmem with heq | hmem
        · obtain rfl := Handle.mmap.inj heq
          obtain rfl := Option.some.inj (hmm.symm.trans hmm')
          obtain rfl | rfl := hx
          · exact .inl hlast
          · exact .inr (.inl hlast)
        · exact .inr (.inr ⟨mm', .inr hmem, hmm', hdev⟩)

/-- A handle to the same mmap stands in for one whose attached devices it has. -/
theorem Inv.absorb {old new : MMap} (hinv : Inv s (.mmap old :: limbo)) {i : Nat}
    (hi : s.handles.live i = some (.mmap new)) (hmmap : new.mmap_ = old.mmap_)
    (hdevices : ∀ m dev, old.mmap_ = some m → attached s.log m dev → dev ∈ old.devices_ →
      dev ∈ new.devices_) : Inv s limbo := by
  refine ⟨hinv.rdma, fun c r hlog => ?_, fun m dev hlog => ?_⟩
  · refine (hinv.connection c r hlog).imp_right ?_
    exact Or.imp_right fun hmem => (List.mem_cons.mp hmem).resolve_left (by simp)
  · refine (hinv.mmap m dev hlog).imp_right (Or.imp_right ?_)
    rintro ⟨mm, hlive | hmem, hmm, hdev⟩
    · exact ⟨mm, .inl hlive, hmm, hdev⟩
    · rcases List.mem_cons.mp hmem with heq | hmem
      · obtain rfl := Handle.mmap.inj heq
        exact ⟨new, .inl ⟨i, hi⟩, hmmap.trans hmm, hdevices m dev hmm hlog hdev⟩
      · exact ⟨mm, .inr hmem, hmm, hdev⟩

theorem Inv.cleanupMmap {mm : MMap} (hinv : Inv s [.mmap mm]) (hlog : Justified Ordered s.log) :
    Inv (s.cleanupMmap mm) [] ∧ Justified Ordered (s.cleanupMmap mm).log := by
  cases hmm : mm.mmap_ with
  | none =>
      simp only [State.cleanupMmap, hmm]
      exact (hinv.drop_limbo (by simp [Handle.native, hmm])).releaseDevices hlog _
  | some m =>
      simp only [State.cleanupMmap, hmm]
      split
      · have hstop := hinv.record (x := .stopMmap m) rfl
        refine (hstop.give_up hmm (.inl rfl)).releaseDevices ?_ _
        exact Justified.concat_iff.mpr ⟨Justified.concat_iff.mpr ⟨hlog, trivial⟩, trivial⟩
      · refine (hinv.give_up hmm (.inl rfl)).releaseDevices ?_ _
        exact Justified.concat_iff.mpr ⟨hlog, trivial⟩

theorem justified_disconnect (hlog : Justified Ordered s.log) (c : Option Nat) :
    Justified Ordered (s.record (c.toList.map .disconnect)).log := by
  refine Justified.append_iff.mpr ⟨hlog, Justified.of_forall fun x hx pre => ?_⟩
  obtain ⟨c', -, rfl⟩ := List.mem_map.mp hx
  trivial

/-- The destructor of a value keeps the order, unless it releases the last owner
of an `Rdma` too early. -/
theorem Inv.destructor {h : Handle} (hinv : Inv s [h]) (hlog : Justified Ordered s.log)
    (hkeeps : ∀ r, h.rdmaPointer = some r → s.rdmaOwners r = 0 →
      (∀ dev, s.rdmas.live r = some dev → 2 ≤ s.deviceOwners dev) ∧ h.connected = false) :
    Inv (s.destructor h) [] ∧ Justified Ordered (s.destructor h).log := by
  cases h with
  | device p => exact (hinv.drop_limbo rfl).releaseDevices hlog _
  | rdma p => exact (hinv.drop_limbo rfl).releaseRdma hlog p fun r hr hzero => (hkeeps r hr hzero).1
  | mmap m => exact hinv.cleanupMmap hlog
  | connection c =>
      -- the member `rdma` goes first: it may only be the last owner without a connection
      by_cases hnone : c.connection = none
      · have hnative : (Handle.connection c).native = false := by simp [Handle.native, hnone]
        obtain ⟨hreleased, hordered⟩ := (hinv.drop_limbo hnative).releaseRdma hlog c.rdma
          fun r hr hzero => (hkeeps r hr hzero).1
        have hrecord : (s.releaseRdma c.rdma).record (c.connection.toList.map .disconnect) =
            s.releaseRdma c.rdma := by simp [State.record, hnone]
        rw [State.destructor, hrecord]
        exact ⟨hreleased, hordered⟩
      · have howned : s.releaseRdma c.rdma = s := by
          cases hr : c.rdma with
          | none => rfl
          | some r =>
              rw [State.releaseRdma, if_neg]
              exact fun hzero => hnone (by simpa [Handle.connected] using (hkeeps r hr hzero).2)
        rw [State.destructor, howned]
        exact ⟨hinv.disconnect, justified_disconnect hlog _⟩

theorem Inv.overwritten {h : Handle} (hinv : Inv s [h]) (hlog : Justified Ordered s.log)
    (hkeeps : ∀ r, h.rdmaPointer = some r → s.rdmaOwners r = 0 →
      ∀ dev, s.rdmas.live r = some dev → 2 ≤ s.deviceOwners dev) :
    Inv (s.overwritten h) [] ∧ Justified Ordered (s.overwritten h).log := by
  cases h with
  | device p => exact (hinv.drop_limbo rfl).releaseDevices hlog _
  | rdma p => exact (hinv.drop_limbo rfl).releaseRdma hlog p hkeeps
  | mmap m => exact hinv.cleanupMmap hlog
  | connection c =>
      -- the old connection is disconnected before the old rdma is released
      exact hinv.disconnect.releaseRdma (justified_disconnect hlog _) c.rdma hkeeps

/-! ## Steps and runs -/

theorem Inv.createRdma (h : Inv s limbo) (dev : Nat) :
    Inv { s.record [.createRdma s.rdmas.length dev] with rdmas := s.rdmas.create dev } limbo := by
  have hobject : Inv { s with rdmas := s.rdmas.create dev } limbo :=
    ⟨fun r dev' hlog => (h.rdma r dev' hlog).imp_right fun hr => Store.live_create_of_live hr dev,
      h.connection, h.mmap⟩
  refine hobject.record_of (.createRdma s.rdmas.length dev) ?_ (by simp) (by simp)
  rintro r dev' hnew
  obtain ⟨rfl, rfl⟩ := Native.createRdma.inj hnew
  exact Store.live_create _ _

/-- A `shared_ptr<Device>` can be passed by copy or by move. -/
theorem Inv.passDevice (h : Inv s limbo) {i : Nat} {p : Option Nat}
    (hi : s.handles.live i = some (.device p)) (moved : Bool) :
    Inv { s with handles := passDevice s.handles i moved } limbo := by
  cases moved with
  | false => exact h
  | true =>
      have hassign : Inv { s with handles := Handles.passDevice s.handles i true }
          (.device p :: limbo) := h.mono rfl rfl fun x _ hheld => held_assign hi hheld
      exact hassign.drop_limbo rfl

theorem passDevice_live {handles : Store Handle} {i j : Nat} {p : Option Nat} {m : MMap}
    (hi : handles.live i = some (.device p)) (hj : handles.live j = some (.mmap m))
    (moved : Bool) : (passDevice handles i moved).live j = some (.mmap m) := by
  cases moved with
  | false => exact hj
  | true =>
      have hne : j ≠ i := by
        rintro rfl
        simp [hi] at hj
      simp only [passDevice, if_true, Store.live_assign hi, if_neg hne, hj]

/-- An operation that changes an `MMap` keeps its attached devices. -/
theorem Inv.assignMmap {old : MMap} (new : MMap) (h : Inv s limbo) {i : Nat}
    (hi : s.handles.live i = some (.mmap old)) (hmmap : new.mmap_ = old.mmap_)
    (hdevices : ∀ m dev, old.mmap_ = some m → attached s.log m dev → dev ∈ old.devices_ →
      dev ∈ new.devices_) :
    Inv { s with handles := s.handles.assign i (.mmap new) } limbo := by
  have hassign : Inv { s with handles := s.handles.assign i (.mmap new) } (.mmap old :: limbo) :=
    h.mono rfl rfl fun x _ hheld => held_assign hi hheld
  exact hassign.absorb (i := i) (Store.live_assign_self hi _) hmmap hdevices

theorem Inv.addDevice {m dev : Nat} {started : Bool} {devices : List Nat} (h : Inv s [])
    {i j : Nat} (hi : s.handles.live i = some (.mmap ⟨some m, started, devices⟩))
    (hj : s.handles.live j = some (.device (some dev))) (moved : Bool) :
    Inv { s.record [.addDev m dev] with
      handles := (Handles.passDevice s.handles j moved).assign i
        (.mmap ⟨some m, started, devices ++ [dev]⟩) } [] := by
  have hpass := passDevice_live hj hi moved
  have hassign := (h.passDevice hj moved).assignMmap ⟨some m, started, devices ++ [dev]⟩ hpass rfl
    fun _ _ _ _ hdev => List.mem_append_left _ hdev
  refine hassign.record_of (.addDev m dev) (by simp) (by simp) ?_
  rintro m' dev' hnew
  obtain ⟨rfl, rfl⟩ := Native.addDev.inj hnew
  exact ⟨⟨some m, started, devices ++ [dev]⟩, .inl ⟨i, Store.live_assign_self hpass _⟩, rfl,
    by simp⟩

theorem Inv.removeDevice {m dev : Nat} {started : Bool} {devices : List Nat} (h : Inv s [])
    {i j : Nat} (hi : s.handles.live i = some (.mmap ⟨some m, started, devices⟩))
    (hj : s.handles.live j = some (.device (some dev))) (moved : Bool) :
    Inv { s.record [.rmDev m dev] with
      handles := (Handles.passDevice s.handles j moved).assign i
        (.mmap ⟨some m, started, devices.erase dev⟩) } [] := by
  have hrecord : Inv (s.record [.rmDev m dev]) [] := h.record rfl
  refine (hrecord.passDevice hj moved).assignMmap _ (passDevice_live hj hi moved) rfl ?_
  rintro m' dev' hm' hattached hdev
  obtain rfl := Option.some.inj hm'
  -- the removed device is no longer attached, whatever is left in `devices_`
  have hne : dev' ≠ dev := by
    rintro rfl
    simp [State.record] at hattached
  exact (List.mem_erase_of_ne hne).mpr hdev

theorem Inv.mmapFromExport (h : Inv s []) {i dev : Nat}
    (hi : s.handles.live i = some (.device (some dev))) (moved : Bool) (m : Nat) :
    Inv { s.record [.createMmap m, .addDev m dev] with
      handles := (Handles.passDevice s.handles i moved).create (.mmap ⟨some m, true, [dev]⟩) }
      [] := by
  have hpass := h.passDevice hi moved
  have hcreate : Inv { s.record [.createMmap m] with
      handles := (Handles.passDevice s.handles i moved).create (.mmap ⟨some m, true, [dev]⟩) }
      [] :=
    (hpass.record (x := .createMmap m) rfl).mono rfl rfl fun x _ hheld => held_create _ hheld
  have hadd := hcreate.record_of (.addDev m dev) (by simp) (by simp) ?_
  · simpa [State.record] using hadd
  · rintro m' dev' hnew
    obtain ⟨rfl, rfl⟩ := Native.addDev.inj hnew
    exact ⟨_, .inl ⟨_, Store.live_create _ _⟩, rfl, List.mem_singleton.mpr rfl⟩

theorem Inv.exportCtx (h : Inv s []) (c r : Nat) :
    Inv { s.record [.exportCtx c r] with
      handles := s.handles.create (.connection ⟨some c, some r⟩) } [] := by
  have hcreate : Inv { s with handles := s.handles.create (.connection ⟨some c, some r⟩) } [] :=
    h.mono rfl rfl fun x _ hheld => held_create _ hheld
  refine hcreate.record_of (.exportCtx c r) (by simp) ?_ (by simp)
  rintro c' r' hnew
  obtain ⟨rfl, rfl⟩ := Native.exportCtx.inj hnew
  exact .inl ⟨_, Store.live_create _ _⟩

/-- `MMap::release` hands the mmap out before it clears the devices. -/
theorem Inv.release {mm : MMap} (h : Inv s []) {i : Nat}
    (hi : s.handles.live i = some (.mmap mm)) :
    Inv { s.record (mm.mmap_.toList.map .handOut) with
      handles := s.handles.assign i (.mmap ⟨none, false, []⟩) } [] := by
  have hassign : Inv { s with handles := s.handles.assign i (.mmap ⟨none, false, []⟩) }
      [.mmap mm] := h.mono rfl rfl fun x _ hheld => held_assign hi hheld
  cases hmm : mm.mmap_ with
  | none =>
      refine (hassign.drop_limbo ?_).mono (by simp [State.record]) rfl fun _ _ hheld => hheld
      simp [Handle.native, hmm]
  | some m => exact hassign.give_up hmm (.inr rfl)

/-- A move or a move assignment leaves the value alive in another handle. -/
theorem Inv.moveAssign {this other : Handle} (h : Inv s []) {i j : Nat} (hij : i ≠ j)
    (hi : s.handles.live i = some this) (hj : s.handles.live j = some other) :
    Inv { s with handles := (s.handles.assign i other).assign j other.moved } [this] := by
  have hfirst : Inv { s with handles := s.handles.assign i other } [this] :=
    h.mono rfl rfl fun x _ hheld => held_assign hi hheld
  have hj' : (s.handles.assign i other).live j = some other :=
    Store.live_assign_of_ne hi hj hij.symm other
  have hsecond : Inv { s with handles := (s.handles.assign i other).assign j other.moved }
      [other, this] := hfirst.mono rfl rfl fun x _ hheld => held_assign hj' hheld
  refine hsecond.live_limbo (i := i) ?_
  exact Store.live_assign_of_ne hj' (Store.live_assign_self hi other) hij other.moved

theorem Handle.ownsRdma_of_pointer {h : Handle} {r : Nat} (hr : h.rdmaPointer = some r) :
    h.ownsRdma r = 1 := by
  cases h <;> simp_all [Handle.rdmaPointer, Handle.ownsRdma]

/-- A handle with an rdma pointer, and any other of its kind, owns no device. -/
theorem Handle.ownsDevice_of_pointer {h k : Handle} {r : Nat} (hr : h.rdmaPointer = some r)
    (hkind : h.sameKind k) (dev : Nat) : k.ownsDevice dev = 0 := by
  cases h <;> cases k <;> simp_all [Handle.rdmaPointer, Handle.ownsDevice, Handle.sameKind]

/-- The condition, read after the value has left its handle. -/
theorem KeepsOrder.after {ev : Event} (hkeeps : KeepsOrder s ev) {this : Handle}
    {destroyed : Bool} (hreleased : released s ev = some (this, destroyed))
    (handles : Store Handle)
    (hrdma : ∀ r, this.rdmaPointer = some r → handles.tally (fun h => h.ownsRdma r) = 0 →
      s.rdmaOwners r = 1)
    (hdevice : ∀ r, this.rdmaPointer = some r → ∀ dev,
      handles.tally (fun h => h.ownsDevice dev) = s.handles.tally (fun h => h.ownsDevice dev))
    (r : Nat) (hr : this.rdmaPointer = some r)
    (hzero : State.rdmaOwners { s with handles := handles } r = 0) :
    (∀ dev, s.rdmas.live r = some dev →
        2 ≤ State.deviceOwners { s with handles := handles } dev) ∧
      (destroyed = true → this.connected = false) := by
  obtain ⟨hdev, hconnection⟩ := hkeeps (this, destroyed) hreleased r hr (hrdma r hr hzero)
  refine ⟨fun dev hlive => ?_, hconnection⟩
  have htwo := hdev dev hlive
  simp only [State.deviceOwners] at htwo ⊢
  rw [hdevice r hr dev]
  exact htwo

theorem Inv.step_destroy {i : Nat} (h : Inv s []) (hlog : Justified Ordered s.log)
    (hkeeps : KeepsOrder s (.destroy i)) (hstep : step s (.destroy i) = some t) :
    Inv t [] ∧ Justified Ordered t.log := by
  obtain ⟨this, hi, rfl⟩ := Option.map_eq_some_iff.mp hstep
  have hlimbo : Inv { s with handles := s.handles.destroy i } [this] :=
    h.mono rfl rfl fun x _ hheld => held_destroy hi hheld
  have hreleased : released s (.destroy i) = some (this, true) := by simp [released, hi]
  have hafter := hkeeps.after hreleased (s.handles.destroy i) ?_ ?_
  · refine hlimbo.destructor hlog fun r hr hzero => ?_
    exact (hafter r hr hzero).imp_right fun hconnection => hconnection rfl
  · intro r hr hzero
    have htally := Store.tally_destroy hi (fun h => h.ownsRdma r)
    have hone := Handle.ownsRdma_of_pointer hr
    simp only [State.rdmaOwners]
    omega
  · intro r hr dev
    have htally := Store.tally_destroy hi (fun h => h.ownsDevice dev)
    have hzero := Handle.ownsDevice_of_pointer hr (k := this) (by cases this <;> rfl) dev
    omega

theorem Inv.step_copyAssign {i j : Nat} (h : Inv s []) (hlog : Justified Ordered s.log)
    (hkeeps : KeepsOrder s (.copyAssign i j)) (hstep : step s (.copyAssign i j) = some t) :
    Inv t [] ∧ Justified Ordered t.log := by
  simp only [step] at hstep
  split at hstep
  case h_2 => simp at hstep
  case h_1 this other hi hj =>
    obtain ⟨⟨hkind, hcopy⟩, hstep⟩ := Option.ite_none_right_eq_some.mp hstep
    by_cases hij : i = j
    · obtain rfl : s = t := by simpa [hij] using hstep
      exact ⟨h, hlog⟩
    · obtain rfl : State.overwritten { s with handles := s.handles.assign i other } this = t := by
        simpa [hij] using hstep
      have hlimbo : Inv { s with handles := s.handles.assign i other } [this] :=
        h.mono rfl rfl fun x _ hheld => held_assign hi hheld
      have hreleased : released s (.copyAssign i j) = some (this, false) := by
        simp [released, hi, hij]
      have hafter := hkeeps.after hreleased (s.handles.assign i other) ?_ ?_
      · exact hlimbo.overwritten hlog fun r hr hzero => (hafter r hr hzero).1
      · intro r hr hzero
        have htally := Store.tally_assign hi other (fun h => h.ownsRdma r)
        have hle := Store.le_tally hi (fun h => h.ownsRdma r)
        have hone := Handle.ownsRdma_of_pointer hr
        simp only [State.rdmaOwners]
        omega
      · intro r hr dev
        have htally := Store.tally_assign hi other (fun h => h.ownsDevice dev)
        have hthis := Handle.ownsDevice_of_pointer hr (k := this) (by cases this <;> rfl) dev
        have hother := Handle.ownsDevice_of_pointer hr hkind dev
        omega

theorem Inv.step_moveAssign {i j : Nat} (h : Inv s []) (hlog : Justified Ordered s.log)
    (hkeeps : KeepsOrder s (.moveAssign i j)) (hstep : step s (.moveAssign i j) = some t) :
    Inv t [] ∧ Justified Ordered t.log := by
  simp only [step] at hstep
  split at hstep
  case h_2 => simp at hstep
  case h_1 this other hi hj =>
    obtain ⟨hkind, hstep⟩ := Option.ite_none_right_eq_some.mp hstep
    by_cases hij : i = j
    · obtain rfl : s = t := by simpa [hij] using hstep
      exact ⟨h, hlog⟩
    · obtain rfl : State.overwritten
          { s with handles := (s.handles.assign i other).assign j other.moved } this = t := by
        simpa [hij] using hstep
      have hj' : (s.handles.assign i other).live j = some other :=
        Store.live_assign_of_ne hi hj (Ne.symm hij) other
      have hreleased : released s (.moveAssign i j) = some (this, false) := by
        simp [released, hi, hij]
      have hafter := hkeeps.after hreleased ((s.handles.assign i other).assign j other.moved) ?_ ?_
      · exact (h.moveAssign hij hi hj).overwritten hlog fun r hr hzero => (hafter r hr hzero).1
      · intro r hr hzero
        have hfirst := Store.tally_assign hi other (fun h => h.ownsRdma r)
        have hsecond := Store.tally_assign hj' other.moved (fun h => h.ownsRdma r)
        have hle := Store.le_tally hi (fun h => h.ownsRdma r)
        have hone := Handle.ownsRdma_of_pointer hr
        simp only [State.rdmaOwners]
        omega
      · intro r hr dev
        have hfirst := Store.tally_assign hi other (fun h => h.ownsDevice dev)
        have hsecond := Store.tally_assign hj' other.moved (fun h => h.ownsDevice dev)
        have hthis := Handle.ownsDevice_of_pointer hr (k := this) (by cases this <;> rfl) dev
        have hother := Handle.ownsDevice_of_pointer hr hkind dev
        have hmoved := Handle.ownsDevice_of_pointer hr (k := other.moved)
          (by cases this <;> cases other <;> simp_all [Handle.sameKind, Handle.moved]) dev
        omega

/-- A new handle makes nothing unowned. -/
theorem Inv.create (h : Inv s limbo) (x : Handle) :
    Inv { s with handles := s.handles.create x } limbo :=
  h.mono rfl rfl fun _ _ hheld => held_create x hheld

theorem Inv.move {this : Handle} (h : Inv s []) {i : Nat} (hi : s.handles.live i = some this) :
    Inv { s with handles := (s.handles.assign i this.moved).create this } [] := by
  have hlimbo : Inv { s with handles := s.handles.assign i this.moved } [this] :=
    h.mono rfl rfl fun x _ hheld => held_assign hi hheld
  exact (hlimbo.create this).live_limbo (Store.live_create _ _)

/-- A step that meets the condition keeps the order. -/
theorem Inv.step {ev : Event} (h : Inv s []) (hlog : Justified Ordered s.log)
    (hkeeps : KeepsOrder s ev) (hstep : step s ev = some t) :
    Inv t [] ∧ Justified Ordered t.log := by
  have hconcat {x : Native} (hx : Ordered s.log x) : Justified Ordered (s.log ++ [x]) :=
    Justified.concat_iff.mpr ⟨hlog, hx⟩
  cases ev with
  | destroy i => exact h.step_destroy hlog hkeeps hstep
  | copyAssign i j => exact h.step_copyAssign hlog hkeeps hstep
  | moveAssign i j => exact h.step_moveAssign hlog hkeeps hstep
  | openDevice =>
      obtain rfl := Option.some.inj hstep
      have hrecord : Inv (s.record [.openDev s.devices]) [] := h.record rfl
      exact ⟨(hrecord.create _).mono rfl rfl fun _ _ hheld => hheld, hconcat trivial⟩
  | nullDevice =>
      obtain rfl := Option.some.inj hstep
      exact ⟨h.create _, hlog⟩
  | nullRdma =>
      obtain rfl := Option.some.inj hstep
      exact ⟨h.create _, hlog⟩
  | mmap =>
      obtain rfl := Option.some.inj hstep
      have hrecord : Inv (s.record [.createMmap s.mmaps]) [] := h.record rfl
      exact ⟨(hrecord.create _).mono rfl rfl fun _ _ hheld => hheld, hconcat trivial⟩
  | openFromDev i moved =>
      simp only [Handles.step] at hstep
      split at hstep
      case h_2 => simp at hstep
      case h_1 dev hi =>
        obtain rfl := Option.some.inj hstep
        exact ⟨((h.passDevice hi moved).create _).createRdma dev, hconcat trivial⟩
  | exportCtx i =>
      simp only [Handles.step] at hstep
      split at hstep
      case h_2 => simp at hstep
      case h_1 r hi =>
        obtain rfl := Option.some.inj hstep
        exact ⟨(h.exportCtx s.connections r).mono rfl rfl fun _ _ hheld => hheld, hconcat trivial⟩
  | mmapFromExport i moved =>
      simp only [Handles.step] at hstep
      split at hstep
      case h_2 => simp at hstep
      case h_1 dev hi =>
        obtain rfl := Option.some.inj hstep
        have hexport := h.mmapFromExport hi moved s.mmaps
        refine ⟨hexport.mono rfl rfl fun _ _ hheld => hheld, ?_⟩
        exact Justified.append_iff.mpr ⟨hlog, Justified.of_forall (by simp [Ordered])⟩
  | addDevice i j moved =>
      simp only [Handles.step] at hstep
      split at hstep
      case h_2 => simp at hstep
      case h_1 m started devices dev hi hj =>
        obtain rfl := Option.some.inj hstep
        exact ⟨h.addDevice hi hj moved, hconcat trivial⟩
  | removeDevice i j moved =>
      simp only [Handles.step] at hstep
      split at hstep
      case h_2 => simp at hstep
      case h_1 m started devices dev hi hj =>
        obtain rfl := Option.some.inj hstep
        exact (h.removeDevice hi hj moved).releaseDevices (hconcat trivial) [dev]
  | start i =>
      simp only [Handles.step] at hstep
      split at hstep
      case h_2 => simp at hstep
      case h_1 m started devices hi =>
        split at hstep
        · obtain rfl := Option.some.inj hstep
          exact ⟨h, hlog⟩
        · obtain rfl := Option.some.inj hstep
          have hrecord : Inv (s.record [.startMmap m]) [] := h.record rfl
          refine ⟨hrecord.assignMmap _ hi rfl fun _ _ _ _ hdev => hdev, hconcat trivial⟩
  | stop i =>
      simp only [Handles.step] at hstep
      split at hstep
      case h_2 => simp at hstep
      case h_1 m started devices hi =>
        split at hstep
        · obtain rfl := Option.some.inj hstep
          have hrecord : Inv (s.record [.stopMmap m]) [] := h.record rfl
          refine ⟨hrecord.assignMmap _ hi rfl fun _ _ _ _ hdev => hdev, hconcat trivial⟩
        · obtain rfl := Option.some.inj hstep
          exact ⟨h, hlog⟩
  | release i =>
      simp only [Handles.step] at hstep
      split at hstep
      case h_2 => simp at hstep
      case h_1 m hi =>
        obtain rfl := Option.some.inj hstep
        refine (h.release hi).releaseDevices ?_ m.devices_
        exact Justified.append_iff.mpr ⟨hlog, Justified.of_forall (by simp [Ordered])⟩
  | copy i =>
      obtain ⟨x, -, hx⟩ := Option.bind_eq_some_iff.mp hstep
      obtain ⟨-, hx⟩ := Option.ite_none_right_eq_some.mp hx
      obtain rfl := Option.some.inj hx
      exact ⟨h.create _, hlog⟩
  | copyDev i =>
      simp only [Handles.step] at hstep
      split at hstep
      case h_2 => simp at hstep
      case h_1 r hi =>
        obtain rfl := Option.some.inj hstep
        exact ⟨h.create _, hlog⟩
  | copyRdma i =>
      simp only [Handles.step] at hstep
      split at hstep
      case h_2 => simp at hstep
      case h_1 c hi =>
        obtain rfl := Option.some.inj hstep
        exact ⟨h.create _, hlog⟩
  | move i =>
      obtain ⟨this, hi, rfl⟩ := Option.map_eq_some_iff.mp hstep
      exact ⟨h.move hi, hlog⟩

theorem Inv.init : Inv State.init [] := by
  constructor <;> simp [State.init, attached]

/-- Handles are torn down in dependency order in every run that destroys no last
owner too early. -/
theorem teardown_in_order (es : List Event) {t : State}
    (hrun : machine.run machine.init es = some t)
    (hkeeps : machine.Guarded KeepsOrder machine.init es) : Justified Ordered t.log := by
  have hinv : Inv t [] ∧ Justified Ordered t.log :=
    Machine.run_invariant_of_guarded (I := fun s => Inv s [] ∧ Justified Ordered s.log)
      (fun _ _ _ hI hC hstep => hI.1.step hI.2 hC hstep) ⟨Inv.init, Justified.nil⟩ hkeeps hrun
  exact hinv.2

/-- The order of the loopback test: the connection, the rdma, the device. -/
theorem teardown_in_order_loopback :
    ∃ t, machine.run machine.init
        [.openDevice, .openFromDev 0 false, .exportCtx 1, .destroy 2, .destroy 1, .destroy 0] =
          some t ∧
      t.log = [.openDev 0, .createRdma 0 0, .exportCtx 0 0, .disconnect 0, .destroyRdma 0,
        .closeDev 0] ∧ Justified Ordered t.log :=
  ⟨_, rfl, rfl, teardown_in_order [.openDevice, .openFromDev 0 false, .exportCtx 1,
    .destroy 2, .destroy 1, .destroy 0] rfl (by decide)⟩

/-- When the `Rdma` is the last owner of its device, its member `dev` closes the
device while the rdma still exists; when an `RdmaConnection` is the last owner of
the `Rdma`, its member `rdma` destroys the rdma while the connection still exists. -/
theorem members_tear_down_too_early :
    (∃ t, machine.run machine.init [.openDevice, .openFromDev 0 true, .destroy 1] = some t ∧
      t.log = [.openDev 0, .createRdma 0 0, .closeDev 0, .destroyRdma 0] ∧
        ¬ Justified Ordered t.log) ∧
    ∃ t, machine.run machine.init
        [.openDevice, .openFromDev 0 false, .exportCtx 1, .destroy 1, .destroy 2] = some t ∧
      t.log = [.openDev 0, .createRdma 0 0, .exportCtx 0 0, .destroyRdma 0, .disconnect 0] ∧
        ¬ Justified Ordered t.log := by
  refine ⟨⟨_, rfl, rfl, fun h => ?_⟩, ⟨_, rfl, rfl, fun h => ?_⟩⟩
  · have hclose := (h [.openDev 0, .createRdma 0 0] (.closeDev 0) [.destroyRdma 0] rfl).1 0
    simp at hclose
  · have hdestroy := h [.openDev 0, .createRdma 0 0, .exportCtx 0 0] (.destroyRdma 0)
      [.disconnect 0] rfl 0
    simp at hdestroy

end Handles
end DocaStdexec
