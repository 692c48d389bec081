import DocaStdexec.Common.Framing
import DocaStdexec.Lib.Machine
import DocaStdexec.Lib.Ledger

/-!
# Who closes a descriptor

The members of `tcp_socket` that obtain and release descriptors, and a program that
uses any number of `tcp_socket` objects.  The descriptor table of the process gives
out numbers that are not open, so a number may come back after it was closed; it
notes every use and every close of a descriptor that is not open.

`connect` looks at `connected_` only.  The end of the stream and a failed transfer
clear `connected_` and keep `fd_`, so a `connect` after them overwrites an open
descriptor.  Nothing else is ever lost, and nothing is closed or used too late.
-/

namespace DocaStdexec
namespace Tcp

open Lib Lib.Method

/-- Where `connect` throws `socket_error`. -/
inductive ConnectError
  | alreadyConnected
  | noSocket
  | unresolved (host : String)
  | refused (host : String) (port : UInt16)
  deriving DecidableEq

/-- The texts of the exceptions. -/
def ConnectError.what : ConnectError → String
  | alreadyConnected => "Socket already connected"
  | noSocket => "Failed to create socket"
  | unresolved host => "Failed to resolve hostname: " ++ host
  | refused host port => "Failed to connect to " ++ host ++ ":" ++ toString port

namespace TcpSocket

/-- `tcp_socket()`. -/
def disowned : TcpSocket := ⟨-1, false⟩

/-- `close`. -/
def close {ε : Type} : Method SysCall.Answer ε TcpSocket PUnit := do
  let s ← self
  if s.fd ≠ -1 then do
    let _ : Unit ← sys (SysCall.close s.fd)
    assign fun _ => disowned
  else pure ⟨⟩

/-- The failures of `connect` that close the descriptor which it has just made. -/
def abandon (fd : Int) (err : ConnectError) :
    Method SysCall.Answer ConnectError TcpSocket PUnit := do
  let _ : Unit ← sys (SysCall.close fd)
  assign fun s => { s with fd := -1 }
  raise err

/-- The rest of `connect`, with the address in place. -/
def dial (fd : Int) (host : String) (port : UInt16) :
    Method SysCall.Answer ConnectError TcpSocket PUnit := do
  let accepted : Bool ← sys (SysCall.connect fd)
  if !accepted then abandon fd (.refused host port)
  else assign fun s => { s with connected := true }

/-- `connect`. -/
def connect (host : String) (port : UInt16) :
    Method SysCall.Answer ConnectError TcpSocket PUnit := do
  let s ← self
  if s.connected then raise .alreadyConnected
  else
    let fd : Int ← sys SysCall.socket
    -- whatever `fd_` was
    assign fun s => { s with fd := fd }
    if fd = -1 then raise .noSocket
    else
      let address : Bool ← sys (SysCall.inetPton host)
      let resolved : Bool ← if address then pure true else sys (SysCall.gethostbyname host)
      if !resolved then abandon fd (.unresolved host)
      else dial fd host port

end TcpSocket
end Tcp

namespace Descriptors

open Lib
open Tcp (TcpSocket)

/-- The open descriptors, and those that were used or closed when they were not. -/
structure Table where
  opened : List Int
  faults : List Int

namespace Table

/-- A call on a descriptor. -/
def use (t : Table) (fd : Int) : Table :=
  if fd ∈ t.opened then t else { t with faults := t.faults ++ [fd] }

/-- `::close`. -/
def close (t : Table) (fd : Int) : Table :=
  if fd ∈ t.opened then { t with opened := t.opened.filter (· ≠ fd) }
  else { t with faults := t.faults ++ [fd] }

/-- The call gives a new descriptor, or `-1`. -/
def gain (t : Table) (fd : Int) : Option Table :=
  if fd = -1 then some t
  else if 0 ≤ fd ∧ fd ∉ t.opened then some { t with opened := fd :: t.opened }
  else none

/-- The table after a call that is answered with `r`; `none` when the kernel cannot
answer so. -/
def answered (t : Table) : (op : SysCall) → op.Answer → Option Table
  | .socket, r => t.gain r
  | .accept fd, r => (t.use fd).gain r
  | .close fd, _ => some (t.close fd)
  | .setsockopt fd, _ | .connect fd, _ | .bind fd _, _ | .listen fd _, _ | .send fd _, _
  | .recv fd _, _ => some (t.use fd)
  | .inetPton _, _ | .gethostbyname _, _ => some t

end Table

/-- What the kernel answers to the `n`-th call of an operation. -/
abbrev Answers := Nat → (op : SysCall) → op.Answer

/-- Run a program on the descriptor table. -/
def onTable {α : Type} (ω : Answers) : Program α → Nat → Table → Option (α × Table)
  | .ret a, _, t => some (a, t)
  | .call op next, n, t =>
      (t.answered op (ω n op)).bind fun t' => onTable ω (next (ω n op)) (n + 1) t'

/-- The `tcp_socket` objects of the program, and the table. -/
structure State where
  sockets : Store TcpSocket
  table : Table

inductive Event
  /-- `tcp_socket()`. -/
  | construct
  /-- `tcp_socket(int)` on a descriptor that the program has just obtained. -/
  | adopt (fd : Int)
  | moveConstruct (j : Nat)
  | moveAssign (i j : Nat)
  | connect (i : Nat) (host : String) (port : UInt16) (ω : Answers)
  | close (i : Nat)
  | send (i : Nat) (data : List UInt8) (ω : Answers)
  /-- `receive` into a buffer of the given size. -/
  | receive (i size : Nat) (ω : Answers)
  | destroy (i : Nat)

/-- Every call succeeds; `socket` gives `fd` and `::recv` gives `bytes`. -/
def obliging (fd : Int) (bytes : List UInt8) : Answers := fun _ op =>
  match op with
  | .socket | .accept _ => fd
  | .setsockopt _ | .inetPton _ | .gethostbyname _ | .connect _ | .bind _ _ | .listen _ _ => true
  | .send _ data => .done data.length
  | .recv _ _ => .done bytes
  | .close _ => ()

namespace State

def init : State := ⟨[], [], []⟩

/-- A member function runs on socket `i`. -/
def call {ε α : Type} (s : State) (i : Nat) (m : Method SysCall.Answer ε TcpSocket α)
    (ω : Answers) : Option State :=
  match s.sockets.live i with
  | some socket =>
      (onTable ω (m socket) 0 s.table).map fun ((_, socket'), t) =>
        ⟨s.sockets.assign i socket', t⟩
  | none => none

/-- `close` of socket `i`: no call has an answer to choose. -/
def close (s : State) (i : Nat) : Option State :=
  s.call (ε := Empty) i TcpSocket.close (obliging (-1) [])

end State

theorem State.call_eq_some {ε α : Type} {s t : State} {i : Nat}
    {m : Method SysCall.Answer ε TcpSocket α} {ω : Answers} (h : s.call i m ω = some t) :
    ∃ socket r socket' t', s.sockets.live i = some socket ∧
      onTable ω (m socket) 0 s.table = some ((r, socket'), t') ∧
      t = ⟨s.sockets.assign i socket', t'⟩ := by
  unfold State.call at h
  split at h
  · next socket hi =>
      obtain ⟨⟨⟨r, socket'⟩, t'⟩, hrun, rfl⟩ := Option.map_eq_some_iff.mp h
      exact ⟨socket, r, socket', t', hi, hrun, rfl⟩
  · simp at h

def step (s : State) : Event → Option State
  | .construct => some { s with sockets := s.sockets.create .disowned }
  | .adopt fd =>
      if fd = -1 then none
      else (s.table.gain fd).map fun t => ⟨s.sockets.create ⟨fd, true⟩, t⟩
  | .moveConstruct j =>
      (s.sockets.live j).map fun other =>
        { s with sockets := (s.sockets.create other).assign j .disowned }
  | .moveAssign i j =>
      match s.sockets.live j with
      | some other =>
          if i = j then some s
          else (s.close i).map fun t =>
            { t with sockets := (t.sockets.assign i other).assign j .disowned }
      | none => none
  | .connect i host port ω => s.call i (TcpSocket.connect host port) ω
  | .close i => s.close i
  | .send i data ω => s.call i (TcpSocket.send data) ω
  | .receive i size ω =>
      s.call i (Method.withLocal (List.replicate size 0) (TcpSocket.receive 0)) ω
  | .destroy i => (s.close i).map fun t => { t with sockets := t.sockets.destroy i }

def machine : Machine State Event := ⟨.init, step⟩

section Members

open Tcp.TcpSocket Lib.Method

variable {ω : Answers} {t t' : Table} {s s' : TcpSocket} {n : Nat}

/-- A method ends with one result, one object and one table. -/
theorem ended_inj {σ α : Type} {r r' : α} {x x' : σ}
    (h : (some ((r, x), t) : Option ((α × σ) × Table)) = some ((r', x'), t')) :
    r = r' ∧ x = x' ∧ t = t' := by
  obtain ⟨hret, rfl⟩ := Prod.mk.inj (Option.some.inj h)
  obtain ⟨rfl, rfl⟩ := Prod.mk.inj hret
  exact ⟨rfl, rfl, rfl⟩

theorem close_onTable {ε : Type} (s : TcpSocket) (t : Table) :
    onTable ω (TcpSocket.close (ε := ε) s) n t =
      some ((.ok ⟨⟩, if s.fd = -1 then s else disowned),
        if s.fd = -1 then t else t.close s.fd) := by
  by_cases hfd : s.fd = -1
  · simp [TcpSocket.close, bind_run, hfd]
    rfl
  · simp [TcpSocket.close, bind_run, hfd, sys, onTable, Table.answered]

theorem obtain_cases {fd : Int} (h : t.gain fd = some t') :
    fd = -1 ∧ t' = t ∨
      fd ≠ -1 ∧ 0 ≤ fd ∧ fd ∉ t.opened ∧ t' = { t with opened := fd :: t.opened } := by
  unfold Table.gain at h
  by_cases hfd : fd = -1
  · rw [if_pos hfd] at h
    exact .inl ⟨hfd, (Option.some.inj h).symm⟩
  · rw [if_neg hfd] at h
    obtain ⟨⟨hpos, hfresh⟩, hsome⟩ := Option.ite_none_right_eq_some.mp h
    exact .inr ⟨hfd, hpos, hfresh, (Option.some.inj hsome).symm⟩

/-- A descriptor that was just obtained can be used. -/
theorem use_obtained (t : Table) (fd : Int) :
    Table.use { t with opened := fd :: t.opened } fd = { t with opened := fd :: t.opened } :=
  if_pos List.mem_cons_self

/-- Closing it again leaves no trace. -/
theorem close_obtained {fd : Int} (hfresh : fd ∉ t.opened) :
    Table.close { t with opened := fd :: t.opened } fd = t := by
  have hrest : t.opened.filter (· ≠ fd) = t.opened := by
    refine List.filter_eq_self.mpr fun x hx => decide_eq_true ?_
    rintro rfl
    exact hfresh hx
  rw [Table.close, if_pos List.mem_cons_self]
  simp only [List.filter_cons, ne_eq, not_true_eq_false, decide_false, Bool.false_eq_true,
    if_false, hrest]

theorem abandon_onTable {fd : Int} (hfresh : fd ∉ t.opened) (err : Tcp.ConnectError) (n : Nat) :
    onTable ω (abandon fd err ⟨fd, false⟩) n { t with opened := fd :: t.opened } =
      some ((.error err, disowned), t) := by
  simp [abandon, bind_run, sys, onTable, Table.answered, close_obtained hfresh, disowned]

/-- What becomes of a descriptor that was just obtained: it is closed again, or the
socket keeps it. -/
def Settled (t : Table) (fd : Int) (s' : TcpSocket) (t' : Table) : Prop :=
  s' = disowned ∧ t' = t ∨ s' = ⟨fd, true⟩ ∧ t' = { t with opened := fd :: t.opened }

theorem abandon_settles {fd : Int} (hfresh : fd ∉ t.opened) {err : Tcp.ConnectError}
    {r : Except Tcp.ConnectError PUnit}
    (h : onTable ω (abandon fd err ⟨fd, false⟩) n { t with opened := fd :: t.opened } =
      some ((r, s'), t')) : Settled t fd s' t' := by
  rw [abandon_onTable hfresh] at h
  obtain ⟨-, rfl, rfl⟩ := ended_inj h
  exact .inl ⟨rfl, rfl⟩

theorem dial_settles {fd : Int} (hfresh : fd ∉ t.opened) {host : String} {port : UInt16}
    {r : Except Tcp.ConnectError PUnit}
    (h : onTable ω (dial fd host port ⟨fd, false⟩) n { t with opened := fd :: t.opened } =
      some ((r, s'), t')) : Settled t fd s' t' := by
  simp only [dial, bind_run, sys, Resumption.call_bind, Resumption.ret_bind, onTable,
    Table.answered, Option.bind_some, use_obtained] at h
  cases haccepted : ω n (.connect fd) with
  | true =>
      rw [haccepted] at h
      obtain ⟨-, rfl, rfl⟩ := ended_inj h
      exact .inr ⟨rfl, rfl⟩
  | false =>
      rw [haccepted] at h
      exact abandon_settles hfresh h

/-- `connect` refuses a connected socket; on any other it ends with a new descriptor
or with none, and what `fd_` was is forgotten. -/
theorem connect_cases {host : String} {port : UInt16} {r : Except Tcp.ConnectError PUnit}
    (h : onTable ω (connect host port s) n t = some ((r, s'), t')) :
    s.connected = true ∧ s' = s ∧ t' = t ∨
      s.connected = false ∧ s' = disowned ∧ t' = t ∨
      s.connected = false ∧ ∃ fd, fd ≠ -1 ∧ fd ∉ t.opened ∧ Settled t fd s' t' := by
  cases hs : s.connected with
  | true =>
      simp only [connect, bind_run, self_run, Resumption.ret_bind, hs, if_true, raise_run, onTable,
        Option.some.injEq, Prod.mk.injEq] at h
      exact .inl ⟨rfl, h.1.2.symm, h.2.symm⟩
  | false =>
      simp only [connect, bind_run, self_run, Resumption.ret_bind, hs, Bool.false_eq_true, if_false,
        sys, Resumption.call_bind, assign_run, onTable] at h
      obtain ⟨t₁, hobtain, hrun⟩ := Option.bind_eq_some_iff.mp h
      clear h
      generalize ω n .socket = fd at hobtain hrun
      rcases obtain_cases hobtain with ⟨hfd, rfl⟩ | ⟨hfd, -, hfresh, rfl⟩
      · rw [if_pos hfd] at hrun
        obtain ⟨-, rfl, rfl⟩ := ended_inj hrun
        exact .inr (.inl ⟨rfl, by rw [hfd]; rfl, rfl⟩)
      · refine .inr (.inr ⟨rfl, fd, hfd, hfresh, ?_⟩)
        rw [if_neg hfd] at hrun
        simp only [bind_run, sys, Resumption.call_bind, Resumption.ret_bind, onTable,
          Table.answered, Option.bind_some] at hrun
        cases haddress : ω (n + 1) (.inetPton host) with
        | true =>
            rw [haddress] at hrun
            exact dial_settles hfresh hrun
        | false =>
            rw [haddress] at hrun
            simp only [Bool.false_eq_true, if_false, bind_run, sys, Resumption.call_bind,
              Resumption.ret_bind, onTable, Table.answered, Option.bind_some] at hrun
            cases hresolved : ω (n + 1 + 1) (.gethostbyname host) with
            | true =>
                rw [hresolved] at hrun
                exact dial_settles hfresh hrun
            | false =>
                rw [hresolved] at hrun
                exact abandon_settles hfresh hrun

theorem ne_of_isConnected (hs : s.isConnected = true) : s.fd ≠ -1 := by
  simp only [isConnected, Bool.and_eq_true, bne_iff_ne] at hs
  exact hs.2

/-- A transfer keeps `fd_`, and uses it when it is a descriptor. -/
def Transferred (s : TcpSocket) (t : Table) (s' : TcpSocket) (t' : Table) : Prop :=
  s'.fd = s.fd ∧ (t' = t ∨ s.fd ≠ -1 ∧ t' = t.use s.fd)

/-- After its `::send`, `send` returns or throws with the same `fd_`. -/
theorem sendNext_ret (s : TcpSocket) (x : Transfer Nat) :
    ∃ r s', sendNext s x = .ret (r, s') ∧ s'.fd = s.fd := by
  cases x with
  | done k => exact ⟨_, _, rfl, rfl⟩
  | failed err =>
      cases hblock : err.wouldBlock with
      | true => exact ⟨_, _, by rw [sendNext, if_pos hblock], rfl⟩
      | false => exact ⟨_, s.disconnected, by rw [sendNext, if_neg (by simp [hblock])], rfl⟩

theorem send_transfers {data : List UInt8} {r : Except Tcp.SocketError Nat}
    (h : onTable ω (send data s) n t = some ((r, s'), t')) : Transferred s t s' t' := by
  rw [send_run] at h
  cases hs : s.isConnected with
  | false =>
      simp only [hs, Bool.false_eq_true, if_false, onTable, Option.some.injEq, Prod.mk.injEq] at h
      exact ⟨h.1.2 ▸ rfl, .inl h.2.symm⟩
  | true =>
      obtain ⟨r', s'', hret, hfd⟩ := sendNext_ret s (ω n (.send s.fd data))
      simp only [hs, if_true, onTable, Table.answered, Option.bind_some, hret, Option.some.injEq,
        Prod.mk.injEq] at h
      exact ⟨h.1.2 ▸ hfd, .inr ⟨ne_of_isConnected hs, h.2.symm⟩⟩

/-- After its `::recv`, `receive` returns or throws with the same `fd_`. -/
theorem receiveNext_ret (s : TcpSocket) (buffer : List UInt8) (offset : Nat)
    (x : Transfer (List UInt8)) :
    ∃ r s' buffer', receiveNext s buffer offset x = .ret (r, (s', buffer')) ∧ s'.fd = s.fd := by
  cases x with
  | done bytes =>
      by_cases hbytes : bytes.length = 0
      · exact ⟨_, s.disconnected, _, by rw [receiveNext, if_pos hbytes], rfl⟩
      · exact ⟨_, s, _, by rw [receiveNext, if_neg hbytes], rfl⟩
  | failed err =>
      cases hblock : err.wouldBlock with
      | true => exact ⟨_, s, _, by rw [receiveNext, if_pos hblock], rfl⟩
      | false =>
          exact ⟨_, s.disconnected, _, by rw [receiveNext, if_neg (by simp [hblock])], rfl⟩

theorem receive_transfers {buffer : List UInt8} {r : Except Tcp.SocketError (Nat × List UInt8)}
    (h : onTable ω (withLocal buffer (receive 0) s) n t = some ((r, s'), t')) :
    Transferred s t s' t' := by
  rw [withLocal, receive_run] at h
  cases hs : s.isConnected with
  | false =>
      simp only [hs, Bool.false_eq_true, if_false, Resumption.ret_bind, onTable, Option.some.injEq,
        Prod.mk.injEq] at h
      exact ⟨h.1.2 ▸ rfl, .inl h.2.symm⟩
  | true =>
      obtain ⟨r', s'', buffer', hret, hfd⟩ :=
        receiveNext_ret s buffer 0 (ω n (.recv s.fd (buffer.length - 0)))
      simp only [hs, if_true, Resumption.call_bind, onTable, Table.answered, Option.bind_some, hret,
        Resumption.ret_bind] at h
      refine ⟨?_, .inr ⟨ne_of_isConnected hs, ?_⟩⟩
      · cases r' <;> simp only [onTable, Option.some.injEq, Prod.mk.injEq] at h <;>
          exact h.1.2 ▸ hfd
      · cases r' <;> simp only [onTable, Option.some.injEq, Prod.mk.injEq] at h <;>
          exact h.2.symm

end Members

/-! ## The books -/

/-- What a socket holds. -/
def key (s : TcpSocket) : Option Int := if s.fd = -1 then none else some s.fd

/-- The sockets hold open descriptors, none of them twice, and nothing was closed or
used too late; `owed` are the descriptors that are held. -/
structure Books (s : State) (owed : Int → Prop) : Prop where
  balanced : Balanced s.sockets key owed
  opened : ∀ fd, owed fd → fd ∈ s.table.opened
  valid : (-1 : Int) ∉ s.table.opened
  faults : s.table.faults = []

/-- An open descriptor that no socket holds. -/
def Lost (s : State) (owed : Int → Prop) (fd : Int) : Prop := fd ∈ s.table.opened ∧ ¬owed fd

/-- The step is a `connect` of a socket that still holds `fd`. -/
def Overwrites (s : State) : Event → Int → Prop
  | .connect i _ _ _, fd =>
      ∃ socket, s.sockets.live i = some socket ∧ socket.connected = false ∧
        key socket = some fd
  | _, _ => False

theorem key_eq_none {s : TcpSocket} : key s = none ↔ s.fd = -1 := by
  simp [key]

theorem key_of_ne {s : TcpSocket} (h : s.fd ≠ -1) : key s = some s.fd := if_neg h

theorem key_congr {s s' : TcpSocket} (h : s'.fd = s.fd) : key s' = key s := by
  rw [key, h, key]

theorem key_disowned : key .disowned = none := rfl

namespace Books

variable {s t : State} {owed : Int → Prop}

theorem init : Books .init fun _ => False :=
  ⟨.nil fun _ h => h, fun _ h => h.elim, by simp [State.init], rfl⟩

/-- A held descriptor can be used. -/
theorem use (h : Books s owed) {i : Nat} {socket : TcpSocket}
    (hi : s.sockets.live i = some socket) (hfd : socket.fd ≠ -1) :
    s.table.use socket.fd = s.table :=
  if_pos (h.opened _ (h.balanced.owed_of_live hi (key_of_ne hfd)))

/-- `close` gives the descriptor back and leaves the socket without one. -/
theorem close (h : Books s owed) {i : Nat} (hstep : s.close i = some t) :
    ∃ owed' socket, Books t owed' ∧ (∀ fd, Lost t owed' fd ↔ Lost s owed fd) ∧
      t.sockets.live i = some socket ∧ key socket = none ∧
      ∀ j, j ≠ i → t.sockets.live j = s.sockets.live j := by
  obtain ⟨socket, r, socket', t', hi, hrun, rfl⟩ := State.call_eq_some hstep
  rw [close_onTable] at hrun
  obtain ⟨-, rfl, rfl⟩ := ended_inj hrun
  by_cases hfd : socket.fd = -1
  · simp only [hfd, if_true]
    refine ⟨owed, socket, ⟨h.balanced.assign_keep hi rfl, h.opened, h.valid, h.faults⟩,
      fun _ => Iff.rfl, ?_, key_eq_none.mpr hfd, fun j hj => ?_⟩
    · exact Store.live_assign_self hi _
    · rw [Store.live_assign hi, if_neg hj]
  · simp only [hfd, if_false]
    have hkey := key_of_ne hfd
    have hopen := h.opened _ (h.balanced.owed_of_live hi hkey)
    rw [Table.close, if_pos hopen]
    refine ⟨fun fd => owed fd ∧ fd ≠ socket.fd, .disowned,
      ⟨h.balanced.assign_drop hi hkey key_disowned, ?_, ?_, h.faults⟩, ?_, ?_, key_disowned,
      fun j hj => ?_⟩
    · rintro fd ⟨howed, hne⟩
      simpa [hne] using h.opened fd howed
    · simp [h.valid]
    · intro fd
      simp only [Lost, List.mem_filter, decide_eq_true_eq]
      constructor
      · rintro ⟨⟨hmem, hne⟩, hnot⟩
        exact ⟨hmem, fun howed => hnot ⟨howed, hne⟩⟩
      · rintro ⟨hmem, hnot⟩
        refine ⟨⟨hmem, ?_⟩, fun howed => hnot howed.1⟩
        rintro rfl
        exact hnot (h.balanced.owed_of_live hi hkey)
    · exact Store.live_assign_self hi _
    · rw [Store.live_assign hi, if_neg hj]

/-- A descriptor that was just obtained goes to an object that holds none. -/
theorem take (h : Books s owed) {sockets : Store TcpSocket} {fd : Int} (hfd : fd ≠ -1)
    (hfresh : fd ∉ s.table.opened)
    (hbalanced : Balanced sockets key fun fd' => owed fd' ∨ fd' = fd) :
    Books ⟨sockets, { s.table with opened := fd :: s.table.opened }⟩
        (fun fd' => owed fd' ∨ fd' = fd) ∧
      ∀ fd', Lost ⟨sockets, { s.table with opened := fd :: s.table.opened }⟩
        (fun fd' => owed fd' ∨ fd' = fd) fd' ↔ Lost s owed fd' := by
  refine ⟨⟨hbalanced, ?_, ?_, h.faults⟩, fun fd' => ?_⟩
  · rintro fd' (howed | rfl)
    · exact List.mem_cons_of_mem _ (h.opened fd' howed)
    · exact List.mem_cons_self
  · rw [List.mem_cons, not_or]
    exact ⟨hfd.symm, h.valid⟩
  · simp only [Lost, List.mem_cons, not_or]
    constructor
    · rintro ⟨rfl | hmem, hnot, hne⟩
      · exact absurd rfl hne
      · exact ⟨hmem, hnot⟩
    · rintro ⟨hmem, hnot⟩
      refine ⟨.inr hmem, hnot, ?_⟩
      rintro rfl
      exact hfresh hmem

/-- A socket lets go of an open descriptor. -/
theorem lose (h : Books s owed) {i : Nat} {socket : TcpSocket} {fd : Int}
    (hi : s.sockets.live i = some socket) (hkey : key socket = some fd) :
    Books { s with sockets := s.sockets.assign i .disowned } (fun fd' => owed fd' ∧ fd' ≠ fd) ∧
      ∀ fd', Lost { s with sockets := s.sockets.assign i .disowned }
        (fun fd' => owed fd' ∧ fd' ≠ fd) fd' ↔ Lost s owed fd' ∨ fd' = fd := by
  have howed := h.balanced.owed_of_live hi hkey
  refine ⟨⟨h.balanced.assign_drop hi hkey key_disowned, fun fd' hfd' => h.opened fd' hfd'.1,
    h.valid, h.faults⟩, fun fd' => ?_⟩
  simp only [Lost]
  constructor
  · rintro ⟨hmem, hnot⟩
    by_cases hfd' : fd' = fd
    · exact .inr hfd'
    · exact .inl ⟨hmem, fun howed' => hnot ⟨howed', hfd'⟩⟩
  · rintro (⟨hmem, hnot⟩ | rfl)
    · exact ⟨hmem, fun howed' => hnot howed'.1⟩
    · exact ⟨h.opened fd' howed, fun howed' => howed'.2 rfl⟩

/-- `connect` on a socket that is not connected: what it held is lost, and what it
obtains is held or closed. -/
theorem reconnect (h : Books s owed) {i : Nat} {socket socket' : TcpSocket} {t' : Table}
    (hi : s.sockets.live i = some socket)
    (hend : socket' = .disowned ∧ t' = s.table ∨
      ∃ fd, fd ≠ -1 ∧ fd ∉ s.table.opened ∧ Settled s.table fd socket' t') :
    ∃ owed', Books ⟨s.sockets.assign i socket', t'⟩ owed' ∧
      ∀ fd, Lost ⟨s.sockets.assign i socket', t'⟩ owed' fd ↔
        Lost s owed fd ∨ key socket = some fd := by
  -- first the old descriptor is forgotten
  obtain ⟨owed₁, h₁, hlost₁⟩ : ∃ owed₁,
      Books { s with sockets := s.sockets.assign i .disowned } owed₁ ∧
        ∀ fd, Lost { s with sockets := s.sockets.assign i .disowned } owed₁ fd ↔
          Lost s owed fd ∨ key socket = some fd := by
    cases hkey : key socket with
    | none =>
        refine ⟨owed, ⟨h.balanced.assign_keep hi (key_disowned.trans hkey.symm), h.opened,
          h.valid, h.faults⟩, fun fd => ?_⟩
        simp [Lost]
    | some old =>
        refine ⟨_, (h.lose hi hkey).1, fun fd => ?_⟩
        rw [(h.lose hi hkey).2, Option.some.injEq, eq_comm (a := old)]
  have hlive : (s.sockets.assign i .disowned).live i = some .disowned :=
    Store.live_assign_self hi _
  have hassign : (s.sockets.assign i .disowned).assign i socket' = s.sockets.assign i socket' :=
    List.set_set ..
  have hclosed : socket' = .disowned ∧ t' = s.table → ∃ owed',
      Books ⟨s.sockets.assign i socket', t'⟩ owed' ∧
        ∀ fd, Lost ⟨s.sockets.assign i socket', t'⟩ owed' fd ↔
          Lost s owed fd ∨ key socket = some fd := by
    rintro ⟨rfl, rfl⟩
    exact ⟨owed₁, h₁, hlost₁⟩
  rcases hend with hend | ⟨fd, hfd, hfresh, hend | ⟨rfl, rfl⟩⟩
  · exact hclosed hend
  · exact hclosed hend
  · have hkey : key ⟨fd, true⟩ = some fd := key_of_ne hfd
    have htake := h₁.balanced.assign_take hlive key_disowned hkey fun howed =>
      hfresh (h₁.opened fd howed)
    rw [hassign] at htake
    refine ⟨_, (h₁.take hfd hfresh htake).1, fun fd' => ?_⟩
    exact ((h₁.take hfd hfresh htake).2 fd').trans (hlost₁ fd')

/-- A member function that transfers data changes nothing in the books. -/
theorem transferred (h : Books s owed) {i : Nat} {socket socket' : TcpSocket} {t' : Table}
    (hi : s.sockets.live i = some socket) (hend : Transferred socket s.table socket' t') :
    Books ⟨s.sockets.assign i socket', t'⟩ owed ∧
      ∀ fd, Lost ⟨s.sockets.assign i socket', t'⟩ owed fd ↔ Lost s owed fd := by
  obtain ⟨hfd, htable⟩ := hend
  have hsame : t' = s.table := by
    rcases htable with htable | ⟨hne, htable⟩
    · exact htable
    · rw [htable, h.use hi hne]
  subst hsame
  exact ⟨⟨h.balanced.assign_keep hi (key_congr hfd), h.opened, h.valid, h.faults⟩,
    fun _ => Iff.rfl⟩

/-- What one step does to the books: only a `connect` of a socket with a descriptor
loses anything. -/
theorem step (h : Books s owed) {ev : Event} (hstep : step s ev = some t) :
    ∃ owed', Books t owed' ∧ ∀ fd, Lost t owed' fd ↔ Lost s owed fd ∨ Overwrites s ev fd := by
  cases ev with
  | construct =>
      obtain rfl := Option.some.inj hstep
      refine ⟨owed, ⟨h.balanced.create_keep key_disowned, h.opened, h.valid, h.faults⟩, ?_⟩
      simp [Lost, Overwrites]
  | adopt fd =>
      simp only [Descriptors.step] at hstep
      split at hstep
      · simp at hstep
      · next hfd =>
          obtain ⟨t', hobtain, rfl⟩ := Option.map_eq_some_iff.mp hstep
          rcases obtain_cases hobtain with ⟨hnone, -⟩ | ⟨-, -, hfresh, rfl⟩
          · exact absurd hnone hfd
          · have hkey : key ⟨fd, true⟩ = some fd := key_of_ne hfd
            have hcreate := h.balanced.create_take hkey fun howed => hfresh (h.opened fd howed)
            refine ⟨_, (h.take hfd hfresh hcreate).1, fun fd' => ?_⟩
            rw [(h.take hfd hfresh hcreate).2]
            simp [Overwrites]
  | moveConstruct j =>
      obtain ⟨other, hj, rfl⟩ := Option.map_eq_some_iff.mp hstep
      refine ⟨owed, ⟨h.balanced.move_create hj rfl key_disowned, h.opened, h.valid, h.faults⟩, ?_⟩
      simp [Lost, Overwrites]
  | moveAssign i j =>
      simp only [Descriptors.step] at hstep
      split at hstep
      · next other hj =>
          split at hstep
          · obtain rfl := Option.some.inj hstep
            exact ⟨owed, h, by simp [Overwrites]⟩
          · next hij =>
              obtain ⟨u, hclose, rfl⟩ := Option.map_eq_some_iff.mp hstep
              obtain ⟨owed', socket, hu, hlost, hi, hkey, hothers⟩ := h.close hclose
              have hj' : u.sockets.live j = some other := by rw [hothers j (Ne.symm hij), hj]
              refine ⟨owed', ⟨hu.balanced.move_assign hi hj' (Ne.symm hij) hkey rfl key_disowned,
                hu.opened, hu.valid, hu.faults⟩, fun fd => ?_⟩
              have hsame := hlost fd
              simpa [Lost, Overwrites] using hsame
      · simp at hstep
  | connect i host port ω =>
      obtain ⟨socket, r, socket', t', hi, hrun, rfl⟩ := State.call_eq_some hstep
      have hover (fd : Int) : Overwrites s (.connect i host port ω) fd ↔
          socket.connected = false ∧ key socket = some fd := by
        simp [Overwrites, hi]
      rcases connect_cases hrun with
        ⟨hconnected, rfl, rfl⟩ | ⟨hconnected, hend⟩ | ⟨hconnected, hend⟩
      · obtain ⟨hbooks, hlost⟩ := h.transferred hi ⟨rfl, .inl rfl⟩
        refine ⟨owed, hbooks, fun fd => ?_⟩
        simp [hlost, hover, hconnected]
      · obtain ⟨owed', hbooks, hlost⟩ := h.reconnect hi (.inl hend)
        exact ⟨owed', hbooks, fun fd => by simp [hlost, hover, hconnected]⟩
      · obtain ⟨owed', hbooks, hlost⟩ := h.reconnect hi (.inr hend)
        exact ⟨owed', hbooks, fun fd => by simp [hlost, hover, hconnected]⟩
  | close i =>
      obtain ⟨owed', socket, hbooks, hlost, -⟩ := h.close hstep
      exact ⟨owed', hbooks, fun fd => by simp [hlost, Overwrites]⟩
  | send i data ω =>
      obtain ⟨socket, r, socket', t', hi, hrun, rfl⟩ := State.call_eq_some hstep
      obtain ⟨hbooks, hlost⟩ := h.transferred hi (send_transfers hrun)
      exact ⟨owed, hbooks, fun fd => by simp [hlost, Overwrites]⟩
  | receive i size ω =>
      obtain ⟨socket, r, socket', t', hi, hrun, rfl⟩ := State.call_eq_some hstep
      obtain ⟨hbooks, hlost⟩ := h.transferred hi (receive_transfers hrun)
      exact ⟨owed, hbooks, fun fd => by simp [hlost, Overwrites]⟩
  | destroy i =>
      obtain ⟨u, hclose, rfl⟩ := Option.map_eq_some_iff.mp hstep
      obtain ⟨owed', socket, hu, hlost, hi, hkey, -⟩ := h.close hclose
      refine ⟨owed', ⟨hu.balanced.destroy_keep hi hkey, hu.opened, hu.valid, hu.faults⟩,
        fun fd => ?_⟩
      have hsame := hlost fd
      simpa [Lost, Overwrites] using hsame

end Books

/-! ## What a program can rely on -/

/-- Every open descriptor is in `fd_` of exactly one live socket, nothing was closed
or used too late, and without sockets nothing is open. -/
structure OwnedOnce (s : State) : Prop where
  owner : ∀ fd ∈ s.table.opened, ∃ i socket, s.sockets.live i = some socket ∧ socket.fd = fd ∧
    ∀ j socket', s.sockets.live j = some socket' → socket'.fd = fd → j = i
  faults : s.table.faults = []
  closed : (∀ i, s.sockets.live i = none) → s.table.opened = []

/-- A socket that is connected again holds no descriptor. -/
def Keeps (s : State) : Event → Prop
  | .connect i _ _ _ =>
      ∀ socket, s.sockets.live i = some socket → socket.connected = false → socket.fd = -1
  | _ => True

instance (s : State) : DecidablePred (Keeps s)
  | .connect i _ _ _ =>
      match hi : s.sockets.live i with
      | some socket =>
          decidable_of_iff (socket.connected = false → socket.fd = -1) (by simp [Keeps, hi])
      | none => .isTrue (by simp [Keeps, hi])
  | .construct | .adopt _ | .moveConstruct _ | .moveAssign _ _ | .close _ | .send _ _ _
  | .receive _ _ _ | .destroy _ => .isTrue trivial

theorem Books.ownedOnce_iff {s : State} {owed : Int → Prop} (h : Books s owed) :
    OwnedOnce s ↔ ∀ fd, ¬Lost s owed fd := by
  have hkey {socket : TcpSocket} {fd : Int} (hfd : fd ∈ s.table.opened)
      (hsocket : socket.fd = fd) : key socket = some fd := by
    subst hsocket
    exact key_of_ne fun hnone => h.valid (hnone ▸ hfd)
  constructor
  · rintro howned fd ⟨hopen, hnot⟩
    obtain ⟨i, socket, hi, hsocket, -⟩ := howned.owner fd hopen
    exact hnot (h.balanced.owed_of_live hi (hkey hopen hsocket))
  · intro hkept
    have howed (fd : Int) (hopen : fd ∈ s.table.opened) : owed fd := by
      by_contra hnot
      exact hkept fd ⟨hopen, hnot⟩
    refine ⟨fun fd hopen => ?_, h.faults, fun hgone => ?_⟩
    · obtain ⟨i, socket, hi, hsocket⟩ := h.balanced.exists_live (howed fd hopen)
      have hfd : socket.fd = fd := by
        unfold key at hsocket
        split at hsocket
        · simp at hsocket
        · exact Option.some.inj hsocket
      refine ⟨i, socket, hi, hfd, fun j socket' hj hsocket' => ?_⟩
      exact h.balanced.unique hi hj hsocket (hkey hopen hsocket')
    · refine List.eq_nil_iff_forall_not_mem.mpr fun fd hopen => ?_
      obtain ⟨i, socket, hi, -⟩ := h.balanced.exists_live (howed fd hopen)
      simp [hgone i] at hi

theorem keeps_iff {s : State} {ev : Event} : Keeps s ev ↔ ∀ fd, ¬Overwrites s ev fd := by
  cases ev with
  | connect i host port ω =>
      constructor
      · rintro hkeeps fd ⟨socket, hi, hconnected, hkey⟩
        rw [key_eq_none.mpr (hkeeps socket hi hconnected)] at hkey
        simp at hkey
      · intro hnone socket hi hconnected
        by_contra hfd
        exact hnone socket.fd ⟨socket, hi, hconnected, key_of_ne hfd⟩
  | _ => simp [Keeps, Overwrites]

/-- Through a whole run every descriptor has its one owner exactly when no socket
that still holds a descriptor is connected again. -/
theorem ownedOnce_iff_keeps {es : List Event} {t : State}
    (hrun : machine.run .init es = some t) :
    machine.Always OwnedOnce .init es ↔ machine.Guarded Keeps .init es := by
  have hinit : OwnedOnce .init := Books.init.ownedOnce_iff.mpr fun fd hlost => by
    simp [Lost, State.init] at hlost
  refine Machine.always_iff_guarded (I := fun s => ∃ owed, Books s owed) ?_ ⟨_, Books.init⟩
    hinit hrun
  rintro s ev u ⟨owed, h⟩ howned hstep
  obtain ⟨owed', hbooks, hlost⟩ := h.step hstep
  refine ⟨⟨owed', hbooks⟩, ?_⟩
  rw [hbooks.ownedOnce_iff, keeps_iff]
  have hkept := h.ownedOnce_iff.mp howned
  simp [hlost, hkept]

/-- After the end of the stream the socket is closed, and then connected again. -/
theorem ownedOnce_iff_keeps_closed :
    machine.Always OwnedOnce .init
      [.construct, .connect 0 "localhost" 80 (obliging 3 []), .receive 0 8 (obliging 3 []),
        .close 0, .connect 0 "localhost" 80 (obliging 3 []), .moveConstruct 0, .destroy 1] :=
  (ownedOnce_iff_keeps rfl).mpr (by decide)

/-- Connected again after the end of the stream, the socket has lost a descriptor. -/
theorem not_always_ownedOnce :
    ¬machine.Always OwnedOnce .init
      [.construct, .connect 0 "localhost" 80 (obliging 3 []), .receive 0 8 (obliging 3 []),
        .connect 0 "localhost" 80 (obliging 4 [])] := by
  refine Machine.not_always_of_run (t := ⟨[some ⟨4, true⟩], [4, 3], []⟩) rfl fun h => ?_
  obtain ⟨i, socket, hi, hfd, -⟩ := h.owner 3 (by decide)
  cases i with
  | zero =>
      obtain rfl := Option.some.inj hi
      exact absurd hfd (by decide)
  | succ i => simp [Store.live] at hi

end Descriptors
end DocaStdexec
