import DocaStdexec.Common.CheckError
import DocaStdexec.Lib.Ledger
import DocaStdexec.Lib.Machine
import DocaStdexec.Lib.Sharing

/-!
# Progress engines, their contexts and their threads

A `ProgressEngine` owns a native `doca_pe` and shares the contexts that have been connected
to it, and a `doca_pe_context` owns an engine and the thread that polls it.  Engines are
moved, contexts are shared by any number of pointers, and everything is destroyed in any
order.  `~doca_pe_context` waits for the thread, and `ctxs_` is declared after `pe_`, so
the contexts are given up before the native engine is destroyed.

This module has the machine, its invariant, and what the destructors do to it.
-/

namespace DocaStdexec
namespace Teardown

open Lib

/-- A `Context` with its native object, for instance an `Rdma`. -/
structure Context where
  started : Bool
  /-- How often the object has been deleted. -/
  deleted : Nat
  /-- The native object is destroyed; that of a started context is not. -/
  destroyed : Bool

/-- A `doca_pe`. -/
structure Pe where
  connected : List Nat
  destroys : Nat

def Pe.closed (x : Pe) : Pe := { x with destroys := x.destroys + 1 }

structure ProgressEngine where
  pe_ : Option Nat
  ctxs_ : List Nat

inductive Handle
  /-- A `shared_ptr<Context>`, or to a class that is derived from it. -/
  | pointer (c : Option Nat)
  | engine (e : ProgressEngine)
  /-- A `doca_pe_context`; `returned` says that `run` has returned on its thread. -/
  | peContext (e : ProgressEngine) (stop_ returned : Bool)

namespace Handle

def engine? : Handle → Option ProgressEngine
  | pointer _ => none
  | engine e => some e
  | peContext e _ _ => some e

def setEngine (e : ProgressEngine) : Handle → Handle
  | pointer c => pointer c
  | engine _ => engine e
  | peContext _ stop_ returned => peContext e stop_ returned

/-- How many `shared_ptr<Context>` to this context the object contains. -/
def owns (c : Nat) : Handle → Nat
  | pointer p => if p = some c then 1 else 0
  | engine e => e.ctxs_.count c
  | peContext e _ _ => e.ctxs_.count c

/-- The `doca_pe` that the object owns. -/
def pe (h : Handle) : Option Nat := h.engine?.bind ProgressEngine.pe_

/-- `run` returns only when `stop_` is set. -/
def Stopped : Handle → Prop
  | peContext _ stop_ returned => returned = true → stop_ = true
  | _ => True

end Handle

structure State where
  handles : Store Handle
  contexts : List Context
  pes : List Pe
  /-- `check_error` has ended the process. -/
  exited : Bool
  /-- A destroyed engine has been polled, or the object of a context has been used after it
  was deleted. -/
  fault : Bool

inductive Event
  /-- A `shared_ptr` to a new context, as from `Rdma::open_from_dev`. -/
  | context
  | copy (i : Nat)
  | move (i : Nat)
  /-- `ProgressEngine()`; `status` is what `doca_pe_create` answers. -/
  | engine (status : DocaError)
  /-- `ProgressEngine(ProgressEngine&&)`. -/
  | moveEngine (i : Nat)
  /-- `doca_pe_context()`. -/
  | peContext (status : DocaError)
  /-- `doca_pe_context(ProgressEngine)` with the engine `i`. -/
  | peContextFrom (i : Nat)
  /-- `connect_ctx` of object `i` with pointer `j`; `status` is what DOCA answers. -/
  | connectCtx (i j : Nat) (moved : Bool) (status : DocaError)
  | start (j : Nat) (status : DocaError)
  | stop (j : Nat) (status : DocaError)
  | progress (i : Nat)
  /-- The thread of a `doca_pe_context` reads `stop_`. -/
  | readStop (i : Nat)
  | join (i : Nat)
  /-- `~doca_pe_context` begins: `loop_.finish()`. -/
  | finish (i : Nat)
  | destroy (i : Nat)

namespace State

def init : State := ⟨[], [], [], false, false⟩

def contextOwners (s : State) (c : Nat) : Nat := s.handles.tally (Handle.owns c)

/-- The object of the context has been deleted. -/
def gone (s : State) (c : Nat) : Bool := s.contexts[c]?.any fun x => x.deleted ≠ 0

/-- A member function of a context is called. -/
def use (s : State) (c : Nat) : State := { s with fault := s.fault || s.gone c }

/-- The destructor of the context. -/
def delete (s : State) (c : Nat) : State :=
  { s with
    contexts := s.contexts.modify c fun x =>
      { x with deleted := x.deleted + 1, destroyed := !x.started } }

/-- The destructors of some `shared_ptr<Context>` that no object contains any more, one
after the other. -/
def release (s : State) : List Nat → State
  | [] => s
  | c :: rest =>
      -- the pointers of `rest` are still alive
      if s.contextOwners c + rest.count c = 0 then release (s.delete c) rest else release s rest

/-- `doca_pe_destroy` succeeds: what has been connected is destroyed. -/
def idle (s : State) (p : Nat) : Bool :=
  s.pes[p]?.all fun x => x.connected.all fun c => s.contexts[c]?.all Context.destroyed

/-- `~unique_ptr<doca_pe>`. -/
def destroyPe (s : State) : Option Nat → State
  | none => s
  | some p =>
      if s.idle p then { s with pes := s.pes.modify p Pe.closed } else { s with exited := true }

/-- `~ProgressEngine` of an engine that no object contains any more: the member `ctxs_`
goes before `pe_`. -/
def destroyEngine (s : State) (e : ProgressEngine) : State :=
  (s.release e.ctxs_).destroyPe e.pe_

/-- `doca_pe_progress`. -/
def poll (s : State) (p : Nat) : State :=
  { s with
    fault := s.fault || s.pes[p]?.all fun x => x.destroys ≠ 0 || x.connected.any s.gone }

/-- `doca_pe_connect_ctx`; nothing is connected to a null pointer. -/
def connect (s : State) (pe : Option Nat) (c : Nat) (status : DocaError) : State :=
  match pe, checkError status with
  | some p, true =>
      { s with pes := s.pes.modify p fun x => { x with connected := x.connected ++ [c] } }
  | _, _ => s

/-- The answer of `doca_ctx_start` or `doca_ctx_stop`. -/
def setStarted (s : State) (c : Nat) (started : Bool) (status : DocaError) : State :=
  if checkError status then
    { s with contexts := s.contexts.modify c fun x => { x with started := started } }
  else { s with exited := true }

/-- An object is made from `ProgressEngine()`. -/
def createEngine (s : State) (status : DocaError) (h : ProgressEngine → Handle) : State :=
  if checkError status then
    { s with
      pes := s.pes ++ [⟨[], 0⟩]
      handles := s.handles.create (h ⟨some s.pes.length, []⟩) }
  else { s with exited := true }

end State

/-- One operation, or one step of a polling thread. -/
def advance (s : State) : Event → Option State
  | .context =>
      some { s with
        contexts := s.contexts ++ [⟨false, 0, false⟩]
        handles := s.handles.create (.pointer (some s.contexts.length)) }
  | .copy i =>
      match s.handles.live i with
      | some (.pointer c) => some { s with handles := s.handles.create (.pointer c) }
      | _ => none
  | .move i =>
      match s.handles.live i with
      | some (.pointer c) =>
          some { s with handles := (s.handles.create (.pointer c)).assign i (.pointer none) }
      | _ => none
  | .engine status => some (s.createEngine status .engine)
  | .moveEngine i =>
      match s.handles.live i with
      | some (.engine e) =>
          some { s with handles := (s.handles.create (.engine e)).assign i (.engine ⟨none, []⟩) }
      | _ => none
  | .peContext status => some (s.createEngine status (.peContext · false false))
  | .peContextFrom i =>
      match s.handles.live i with
      | some (.engine e) =>
          some { s with
            handles := (s.handles.create (.peContext e false false)).assign i
              (.engine ⟨none, []⟩) }
      | _ => none
  | .connectCtx i j moved status =>
      match s.handles.live i, s.handles.live j with
      | some h, some (.pointer (some c)) =>
          h.engine?.map fun e =>
            State.connect
              { s.use c with
                handles := (if moved then s.handles.assign j (.pointer none) else s.handles).assign
                  i (h.setEngine ⟨e.pe_, e.ctxs_ ++ [c]⟩) } e.pe_ c status
      | _, _ => none
  | .start j status =>
      match s.handles.live j with
      | some (.pointer (some c)) => some ((s.use c).setStarted c true status)
      | _ => none
  | .stop j status =>
      match s.handles.live j with
      | some (.pointer (some c)) => some ((s.use c).setStarted c false status)
      | _ => none
  | .progress i =>
      match s.handles.live i with
      | some (.engine e) => e.pe_.map s.poll
      | some (.peContext e _ false) => e.pe_.map s.poll
      | _ => none
  | .readStop i =>
      match s.handles.live i with
      | some (.peContext e stop_ false) =>
          some { s with handles := s.handles.assign i (.peContext e stop_ stop_) }
      | _ => none
  | .join i =>
      -- the thread has returned while the object is in use
      match s.handles.live i with
      | some (.peContext _ false true) => some s
      | _ => none
  | .finish i =>
      match s.handles.live i with
      | some (.peContext e false returned) =>
          some { s with handles := s.handles.assign i (.peContext e true returned) }
      | _ => none
  | .destroy i =>
      match s.handles.live i with
      | some (.pointer c) => some (State.release { s with handles := s.handles.destroy i } c.toList)
      | some (.engine e) => some (State.destroyEngine { s with handles := s.handles.destroy i } e)
      | some (.peContext e true true) =>
          -- `thread_.join()` has returned
          some (State.destroyEngine { s with handles := s.handles.destroy i } e)
      | _ => none

/-- A process that has exited does nothing. -/
def step (s : State) (ev : Event) : Option State := if s.exited then none else advance s ev

def machine : Machine State Event := ⟨State.init, step⟩

/-! ## What is kept alive -/

/-- The object of the context exists. -/
def Kept (s : State) (c : Nat) : Prop := ∃ x, s.contexts[c]? = some x ∧ x.deleted = 0

/-- The `doca_pe` exists. -/
def Open (s : State) (p : Nat) : Prop := ∃ x, s.pes[p]? = some x ∧ x.destroys = 0

/-- Contexts are kept as long as they have owners, `limbo` included; engines have one owner
each, which shares all that is connected. -/
structure Inv (s : State) (limbo : List Nat) : Prop where
  shared : Shared s.handles Handle.owns limbo (Kept s)
  once : ∀ (c : Nat) (x : Context), s.contexts[c]? = some x → x.deleted ≤ 1
  native : ∀ (c : Nat) (x : Context), s.contexts[c]? = some x → x.destroyed = true → x.deleted = 1
  owned : Balanced s.handles Handle.pe (Open s)
  peOnce : ∀ (p : Nat) (x : Pe), s.pes[p]? = some x → x.destroys ≤ 1
  connected : ∀ (i : Nat) (h : Handle) (p : Nat) (x : Pe), s.handles.live i = some h →
    h.pe = some p → s.pes[p]? = some x → ∀ c ∈ x.connected, 0 < h.owns c
  stopped : ∀ (i : Nat) (h : Handle), s.handles.live i = some h → h.Stopped
  fault : s.fault = false

variable {s t : State} {limbo : List Nat} {c i : Nat}

theorem inv_init : Inv State.init [] where
  shared := Shared.nil (by simp [Kept, State.init])
  once := by simp [State.init]
  native := by simp [State.init]
  owned := Balanced.nil (by simp [Open, State.init])
  peOnce := by simp [State.init]
  connected := by simp [State.init, Store.live]
  stopped := by simp [State.init, Store.live]
  fault := rfl

theorem Inv.kept (h : Inv s limbo) (hc : 0 < s.contextOwners c) : Kept s c :=
  (h.shared c).mpr (Nat.add_pos_left hc _)

theorem gone_of_kept (hc : Kept s c) : s.gone c = false := by
  obtain ⟨x, hx, hdeleted⟩ := hc
  simp [State.gone, hx, hdeleted]

/-- Nothing uses a context that has an owner in vain. -/
theorem Inv.use_eq (h : Inv s limbo) (hc : 0 < s.contextOwners c) : s.use c = s := by
  simp [State.use, gone_of_kept (h.kept hc)]

theorem owns_pos_of_live {x : Handle} (hi : s.handles.live i = some x) (hc : 0 < x.owns c) :
    0 < s.contextOwners c :=
  Nat.lt_of_lt_of_le hc (Store.le_tally hi (Handle.owns c))

/-! ## Giving contexts up -/

theorem getElem?_delete (s : State) (c d : Nat) :
    (s.delete c).contexts[d]? = s.contexts[d]?.map fun x =>
      if c = d then { x with deleted := x.deleted + 1, destroyed := !x.started } else x := by
  rw [State.delete, List.getElem?_modify]
  cases s.contexts[d]? with
  | none => rfl
  | some x => by_cases hcd : c = d <;> simp [hcd]

/-- What the destructors of some pointers do to the contexts. -/
theorem getElem?_release (s : State) (cs : List Nat) (d : Nat) :
    (s.release cs).contexts[d]? = s.contexts[d]?.map fun x =>
      if d ∈ cs ∧ s.contextOwners d = 0 then
        { x with deleted := x.deleted + 1, destroyed := !x.started }
      else x := by
  induction cs generalizing s with
  | nil => simp [State.release]
  | cons c rest ih =>
      by_cases hlast : s.contextOwners c + rest.count c = 0
      · have howners : s.contextOwners c = 0 := by omega
        have hrest : c ∉ rest := List.count_eq_zero.mp (by omega)
        rw [State.release, if_pos hlast, ih, getElem?_delete]
        by_cases hcd : c = d
        · subst hcd
          simp [hrest, howners, Function.comp_def]
        · have hsame : (s.delete c).contextOwners d = s.contextOwners d := rfl
          have hdc : d ≠ c := Ne.symm hcd
          simp [hcd, hdc, hsame]
      · rw [State.release, if_neg hlast, ih]
        by_cases hcd : d = c
        · subst hcd
          have hagain : s.contextOwners d = 0 → d ∈ rest := by
            intro hzero
            exact List.count_pos_iff.mp (by omega)
          by_cases hzero : s.contextOwners d = 0
          · simp [hzero, hagain hzero]
          · simp [hzero]
        · simp [hcd]

theorem release_frame (s : State) (cs : List Nat) :
    (s.release cs).handles = s.handles ∧ (s.release cs).pes = s.pes ∧
      (s.release cs).exited = s.exited ∧ (s.release cs).fault = s.fault := by
  induction cs generalizing s with
  | nil => exact ⟨rfl, rfl, rfl, rfl⟩
  | cons c rest ih =>
      rw [State.release]
      split
      · exact ih (s.delete c)
      · exact ih s

theorem kept_delete : Kept (s.delete c) i ↔ Kept s i ∧ i ≠ c := by
  unfold Kept
  rw [getElem?_delete]
  by_cases hci : c = i
  · simp [hci]
  · simp [hci, Ne.symm hci]

/-- The destructor of the last pointer to a context. -/
theorem Inv.delete (h : Inv s (c :: limbo)) (hlast : owners s.handles Handle.owns limbo c = 0) :
    Inv (s.delete c) limbo := by
  have hkept : Kept s c := by
    refine (h.shared c).mpr ?_
    simp only [owners, List.count_cons_self]
    omega
  refine ⟨h.shared.drop.congr fun d => ?_, ?_, ?_, h.owned, h.peOnce, h.connected, h.stopped,
    h.fault⟩
  · rw [kept_delete]
    constructor
    · rintro ⟨hd, hne⟩
      exact ⟨hd, fun hdc => absurd hdc hne⟩
    · rintro ⟨hd, hpos⟩
      refine ⟨hd, fun hdc => ?_⟩
      have := hpos hdc
      omega
  · intro d x hx
    obtain ⟨y, hy, hxy⟩ := Option.map_eq_some_iff.mp (getElem?_delete s c d ▸ hx)
    subst hxy
    obtain ⟨z, hz, hdeleted⟩ := hkept
    by_cases hcd : c = d
    · subst hcd
      obtain rfl := Option.some.inj (hy.symm.trans hz)
      simp [hdeleted]
    · rw [if_neg hcd]
      exact h.once d y hy
  · intro d x hx hdestroyed
    obtain ⟨y, hy, hxy⟩ := Option.map_eq_some_iff.mp (getElem?_delete s c d ▸ hx)
    subst hxy
    obtain ⟨z, hz, hdeleted⟩ := hkept
    by_cases hcd : c = d
    · subst hcd
      obtain rfl := Option.some.inj (hy.symm.trans hz)
      simp [hdeleted]
    · rw [if_neg hcd] at hdestroyed ⊢
      exact h.native d y hy hdestroyed

/-- The destructor of a pointer to a context that has other owners. -/
theorem Inv.forget (h : Inv s (c :: limbo)) (hmore : owners s.handles Handle.owns limbo c ≠ 0) :
    Inv s limbo := by
  refine ⟨h.shared.drop.congr fun d => ?_, h.once, h.native, h.owned, h.peOnce, h.connected,
    h.stopped, h.fault⟩
  exact ⟨fun hd => ⟨hd, fun _ => Nat.pos_of_ne_zero hmore⟩, fun hd => hd.1⟩

theorem Inv.release (h : Inv s limbo) : Inv (s.release limbo) [] := by
  induction limbo generalizing s with
  | nil => exact h
  | cons c rest ih =>
      rw [State.release]
      split
      · next hlast => exact ih (h.delete hlast)
      · next hmore => exact ih (h.forget hmore)

/-! ## Destroying an engine -/

theorem owns_of_engine {h : Handle} {e : ProgressEngine} (he : h.engine? = some e) (c : Nat) :
    h.owns c = e.ctxs_.count c := by
  cases h with
  | pointer p => simp [Handle.engine?] at he
  | engine e' => exact Option.some.inj he ▸ rfl
  | peContext e' stop_ returned => exact Option.some.inj he ▸ rfl

/-- A context that the engine of an object shares, after the object has been destroyed. -/
theorem destroyed_release_iff {h : Handle} {e : ProgressEngine} (hinv : Inv s [])
    (hi : s.handles.live i = some h) (he : h.engine? = some e) (hc : 0 < h.owns c) :
    (State.release { s with handles := s.handles.destroy i } e.ctxs_).contexts[c]?.all
        Context.destroyed = true ↔
      s.contextOwners c = h.owns c ∧ ∀ y, s.contexts[c]? = some y → y.started = false := by
  obtain ⟨y, hy, hdeleted⟩ := hinv.kept (owns_pos_of_live hi hc)
  have hnative : y.destroyed = false := by
    by_contra hdestroyed
    have hone := hinv.native c y hy (by simpa using hdestroyed)
    omega
  have hmem : c ∈ e.ctxs_ := List.count_pos_iff.mp (owns_of_engine he c ▸ hc)
  have hothers : (s.handles.destroy i).tally (Handle.owns c) + h.owns c = s.contextOwners c :=
    Store.tally_destroy hi (Handle.owns c)
  have hleft : State.contextOwners { s with handles := s.handles.destroy i } c = 0 ↔
      s.contextOwners c = h.owns c := by
    show (s.handles.destroy i).tally (Handle.owns c) = 0 ↔ _
    omega
  rw [getElem?_release]
  show ((s.contexts[c]?).map _).all _ = true ↔ _
  rw [hy]
  simp only [Option.map_some, Option.all_some, hmem, true_and, hleft, Option.some.injEq,
    forall_eq']
  split
  · next hlast => simp [hlast]
  · next hmore => simp [hmore, hnative]

/-- The engine of an object that is destroyed shares all that is connected to it, and
`doca_pe_destroy` succeeds exactly when nobody else does and the contexts are stopped. -/
theorem idle_release_iff {h : Handle} {e : ProgressEngine} {p : Nat} (hinv : Inv s [])
    (hi : s.handles.live i = some h) (he : h.engine? = some e) (hp : e.pe_ = some p) :
    State.idle (State.release { s with handles := s.handles.destroy i } e.ctxs_) p = true ↔
      ∀ x, s.pes[p]? = some x → ∀ c ∈ x.connected, s.contextOwners c = h.owns c ∧
        ∀ y, s.contexts[c]? = some y → y.started = false := by
  have hpe : h.pe = some p := by rw [Handle.pe, he, Option.bind_some, hp]
  obtain ⟨-, hpes, -, -⟩ := release_frame { s with handles := s.handles.destroy i } e.ctxs_
  rw [State.idle, hpes]
  show (s.pes[p]?).all _ = true ↔ _
  cases hx : s.pes[p]? with
  | none => simp
  | some x =>
      simp only [Option.all_some, List.all_eq_true, Option.some.injEq, forall_eq']
      constructor
      · intro hall c hc
        exact (destroyed_release_iff hinv hi he (hinv.connected i h p x hi hpe hx c hc)).mp
          (hall c hc)
      · intro hall c hc
        exact (destroyed_release_iff hinv hi he (hinv.connected i h p x hi hpe hx c hc)).mpr
          (hall c hc)

/-- The destructors of pointers do not look at the engines. -/
theorem release_pes (s : State) (pes : List Pe) (cs : List Nat) :
    State.release { s with pes := pes } cs = { s.release cs with pes := pes } := by
  induction cs generalizing s with
  | nil => rfl
  | cons c rest ih =>
      have hsame : State.contextOwners { s with pes := pes } c = s.contextOwners c := rfl
      by_cases hlast : s.contextOwners c + rest.count c = 0
      · simp only [State.release, hsame, if_pos hlast]
        exact ih (s.delete c)
      · simp only [State.release, hsame, if_neg hlast]
        exact ih s

/-- The object is gone, and its pointers are in limbo. -/
theorem Inv.toLimbo {h : Handle} (hinv : Inv s []) (hi : s.handles.live i = some h)
    {cs : List Nat} (hcs : ∀ c, cs.count c = h.owns c) :
    Shared (s.handles.destroy i) Handle.owns cs (Kept s) := by
  refine hinv.shared.of_owners_eq fun c => ?_
  have hdestroy := Store.tally_destroy hi (Handle.owns c)
  rw [owners, owners, hcs, hdestroy, List.count_nil]
  rfl

theorem Inv.destroy {h : Handle} (hinv : Inv s []) (hi : s.handles.live i = some h)
    (hnone : h.pe = none) {cs : List Nat} (hcs : ∀ c, cs.count c = h.owns c) :
    Inv { s with handles := s.handles.destroy i } cs := by
  refine ⟨hinv.toLimbo hi hcs, hinv.once, hinv.native, hinv.owned.destroy_keep hi hnone,
    hinv.peOnce, ?_, ?_, hinv.fault⟩
  · intro j h' p x hj
    exact hinv.connected j h' p x (Store.live_of_live_destroy hj)
  · intro j h' hj
    exact hinv.stopped j h' (Store.live_of_live_destroy hj)

theorem open_closed {p q : Nat} :
    Open { s with pes := s.pes.modify p Pe.closed } q ↔ Open s q ∧ q ≠ p := by
  unfold Open
  simp only [List.getElem?_modify]
  by_cases hpq : p = q
  · simp [hpq, Pe.closed]
  · simp [hpq, Ne.symm hpq]

/-- The object is gone with its engine, and its pointers are in limbo. -/
theorem Inv.destroyOwner {h : Handle} {p : Nat} (hinv : Inv s []) (hi : s.handles.live i = some h)
    (hp : h.pe = some p) {cs : List Nat} (hcs : ∀ c, cs.count c = h.owns c) :
    Inv { s with handles := s.handles.destroy i, pes := s.pes.modify p Pe.closed } cs := by
  have howned := (hinv.owned.assign_drop (x := .pointer none) hi hp rfl).destroy_keep
    (Store.live_assign_self hi _) rfl
  rw [Store.destroy_assign] at howned
  obtain ⟨z, hz, hdestroys⟩ := hinv.owned.owed_of_live hi hp
  refine ⟨hinv.toLimbo hi hcs, hinv.once, hinv.native, howned.congr fun q => open_closed.symm,
    ?_, ?_, ?_, hinv.fault⟩
  · intro q x hx
    obtain ⟨y, hy, ⟨rfl, rfl⟩ | ⟨-, rfl⟩⟩ := Store.getElem?_modify_cases hx
    · obtain rfl := Option.some.inj (hy.symm.trans hz)
      simp [Pe.closed, hdestroys]
    · exact hinv.peOnce q x hy
  · intro j h' q x hj hq hx
    have hlive := Store.live_of_live_destroy hj
    obtain ⟨y, hy, ⟨-, rfl⟩ | ⟨-, rfl⟩⟩ := Store.getElem?_modify_cases hx
    · exact hinv.connected j h' q y hlive hq hy
    · exact hinv.connected j h' q x hlive hq hy
  · intro j h' hj
    exact hinv.stopped j h' (Store.live_of_live_destroy hj)

/-- The destructor of an object with an engine. -/
theorem Inv.destroyEngine {h : Handle} {e : ProgressEngine} (hinv : Inv s [])
    (hi : s.handles.live i = some h) (he : h.engine? = some e)
    (ht : State.destroyEngine { s with handles := s.handles.destroy i } e = t) :
    t.fault = false ∧ (t.exited = false → Inv t []) := by
  obtain ⟨-, hpes, -, hfault⟩ := release_frame { s with handles := s.handles.destroy i } e.ctxs_
  have hcs : ∀ c, e.ctxs_.count c = h.owns c := fun c => (owns_of_engine he c).symm
  rw [State.destroyEngine] at ht
  cases hp : e.pe_ with
  | none =>
      have hnone : h.pe = none := by rw [Handle.pe, he, Option.bind_some, hp]
      rw [hp, State.destroyPe] at ht
      subst ht
      exact ⟨hfault.trans hinv.fault, fun _ => (hinv.destroy hi hnone hcs).release⟩
  | some p =>
      have hsome : h.pe = some p := by rw [Handle.pe, he, Option.bind_some, hp]
      rw [hp, State.destroyPe, hpes] at ht
      split at ht
      · subst ht
        refine ⟨hfault.trans hinv.fault, fun _ => ?_⟩
        exact release_pes _ _ _ ▸ (hinv.destroyOwner hi hsome hcs).release
      · subst ht
        exact ⟨hfault.trans hinv.fault, fun hexited => absurd hexited (by simp)⟩

end Teardown
end DocaStdexec
