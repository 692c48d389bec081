import DocaStdexec.Common.Descriptors
import DocaStdexec.Lib.Steady

/-!
# When a socket reports that its connection is closed

One connected `tcp_socket` and its peer.  The owner calls the transfer methods one after
the other, goes on when one throws, and may close the socket or move it away; the system
calls answer as they like.  A move assignment to the socket closes it and makes it the
end of another connection.

`receive` takes a count of 0 for the end of the stream.  An empty buffer gives the same
count on a connection that is alive, and this is the only way for a live connection to be
reported as closed.
-/

namespace DocaStdexec
namespace Liveness

open Lib
open Tcp (TcpSocket)

/-- A call of the owner. -/
inductive Call
  | send (data : List UInt8)
  | sendAll (data : List UInt8)
  | receive (buffer : List UInt8)
  | receiveAll (buffer : List UInt8)
  | sendDynamic (e : Endian) (data : List UInt8)
  | receiveDynamic (e : Endian) (maxSize : Nat)
  | close
  deriving DecidableEq

/-- The call, up to the socket that it leaves, whether it returns or throws. -/
def Call.program : Call → TcpSocket → Program TcpSocket
  | send data, s => (TcpSocket.send data s).bind fun r => .ret r.2
  | sendAll data, s => (TcpSocket.sendAll data s).bind fun r => .ret r.2
  | receive buffer, s => (TcpSocket.receive 0 (s, buffer)).bind fun r => .ret r.2.1
  | receiveAll buffer, s => (TcpSocket.receiveAll (s, buffer)).bind fun r => .ret r.2.1
  | sendDynamic e data, s => (TcpSocket.sendDynamic e data s).bind fun r => .ret r.2
  | receiveDynamic e maxSize, s => (TcpSocket.receiveDynamic e maxSize s).bind fun r => .ret r.2
  | close, s => (TcpSocket.close (ε := Empty) s).bind fun r => .ret r.2

/-- The socket, the call that runs and the rest of it, and what can still be received.
`ended`, `failed` and `taken` say whether the peer has ended its stream, a call has
failed otherwise than by `EAGAIN` or `EWOULDBLOCK`, and the owner has closed the socket
or moved it away. -/
structure State where
  socket : TcpSocket
  running : Option (Call × Program TcpSocket)
  incoming : List UInt8
  ended : Bool
  failed : Bool
  taken : Bool

inductive Event
  | call (c : Call)
  /-- The answer to a `::send`: a count, or an error. -/
  | sent (r : Transfer Nat)
  /-- The answer to a `::recv`. -/
  | received (r : Transfer Nat)
  /-- The answer to a `::close`. -/
  | closed
  | moveAway
  | arrive (bytes : List UInt8)
  | endStream

namespace State

/-- A connection on which nothing has happened. -/
def start (s : TcpSocket) : State := ⟨s, none, [], false, false, false⟩

/-- The call returns, or goes on to its next system call. -/
def resume (s : State) (c : Call) : Program TcpSocket → State
  | .ret socket => { s with socket := socket, running := none }
  | .call op next => { s with running := some (c, .call op next) }

/-- The peer has ended its stream and all its bytes have been received. -/
def Over (s : State) : Prop := s.ended = true ∧ s.incoming = []

instance (s : State) : Decidable s.Over := inferInstanceAs (Decidable (_ ∧ _))

/-- There is a reason why the socket is not connected any more. -/
def Excused (s : State) : Prop := s.taken = true ∨ s.failed = true ∨ s.Over

instance (s : State) : Decidable s.Excused := inferInstanceAs (Decidable (_ ∨ _ ∨ _))

end State

def step (s : State) : Event → Option State
  | .call c =>
      match s.running with
      | none =>
          some ({ s with taken := s.taken || decide (c = Call.close) }.resume c
            (c.program s.socket))
      | some _ => none
  | .sent r =>
      match s.running with
      | some (c, .call (.send _ data) next) =>
          match r with
          | .done k => if k ≤ data.length then some (s.resume c (next (.done k))) else none
          | .failed err =>
              some ({ s with failed := s.failed || !err.wouldBlock }.resume c (next (.failed err)))
      | _ => none
  | .received r =>
      match s.running with
      | some (c, .call (.recv _ size) next) =>
          match r with
          | .done k =>
              -- a count of 0: nothing was asked for, or there is nothing to come
              if k ≤ size ∧ k ≤ s.incoming.length ∧ (k = 0 → size = 0 ∨ s.Over) then
                some ({ s with incoming := s.incoming.drop k }.resume c
                  (next (.done (s.incoming.take k))))
              else none
          | .failed err =>
              some ({ s with failed := s.failed || !err.wouldBlock }.resume c (next (.failed err)))
      | _ => none
  | .closed =>
      match s.running with
      | some (c, .call (.close _) next) => some (s.resume c (next ()))
      | _ => none
  | .moveAway =>
      match s.running with
      | none => some { s with socket := .disowned, taken := true }
      | some _ => none
  | .arrive bytes => if s.ended then none else some { s with incoming := s.incoming ++ bytes }
  | .endStream => some { s with ended := true }

def machine (s : TcpSocket) : Machine State Event := ⟨.start s, step⟩

/-- Between two calls the socket is reported as not connected for a reason only. -/
def Honest (s : State) : Prop :=
  s.running = none → s.socket.isConnected = false → s.Excused

/-- A `receive` with an empty buffer is running. -/
def State.asksNothing (s : State) : Bool :=
  match s.running with
  | some (.receive [], _) => true
  | _ => false

/-- A `::recv` for an empty buffer does not return 0 while there is no reason to
disconnect. -/
def Asks (s : State) : Event → Prop
  | .received (.done 0) => s.asksNothing = true → s.Excused
  | _ => True

instance (s : State) : DecidablePred (Asks s)
  | .received (.done 0) => inferInstanceAs (Decidable (s.asksNothing = true → s.Excused))
  | .received (.done (_ + 1)) | .received (.failed _) | .call _ | .sent _ | .closed | .moveAway
  | .arrive _ | .endStream => .isTrue trivial

/-! ## The calls -/

section Calls

open Tcp.TcpSocket Lib.Method

variable {s : TcpSocket}

/-- A program that writes leaves the socket as it is unless a transfer fails. -/
theorem uploads_steady {out : List UInt8} {p : Program (Except Tcp.SocketError PUnit × TcpSocket)}
    (h : Upload s.fd (fun r => r = (.ok ⟨⟩, s)) (Halted s) out p) :
    Steady (fun r => r.2 = s) p := by
  refine h.steady ?_ ?_
  · rintro _ rfl
    rfl
  · rintro _ rfl
    rfl

/-- So does one that reads, unless the stream ends. -/
theorem receiveAll_steady (hs : s.isConnected = true) (buffer : List UInt8) :
    Steady (fun r => r.2.1 = s) (receiveAll (s, buffer)) := by
  refine (receiveAll_downloads hs buffer).steady ?_ ?_
  · rintro got _ rfl
    rfl
  · rintro got _ rfl
    rfl

theorem send_steady (hs : s.isConnected = true) (data : List UInt8) :
    Steady (fun r => r.2 = s) (send data s) := by
  rw [send_run, if_pos hs]
  refine .send (fun k _ => .ret rfl) fun err hblock => ?_
  rw [sendNext, if_pos hblock]
  exact .ret rfl

/-- `receive` into a buffer that is not empty. -/
theorem receive_steady (hs : s.isConnected = true) {buffer : List UInt8} (hbuffer : buffer ≠ []) :
    Steady (fun r => r.2.1 = s) (receive 0 (s, buffer)) := by
  rw [receive_run, if_pos hs]
  refine .recv (List.length_pos_iff.mpr hbuffer) (fun bytes hpos _ => ?_) fun err hblock => ?_
  · rw [receiveNext, if_neg (Nat.one_le_iff_ne_zero.mp hpos)]
    exact .ret rfl
  · rw [receiveNext, if_pos hblock]
    exact .ret rfl

/-- `receive` into an empty buffer disconnects the socket when `::recv` returns 0. -/
theorem receive_nil (hs : s.isConnected = true) :
    ∃ next, (Call.receive []).program s = .call (.recv s.fd 0) next ∧
      next (.done []) = .ret s.disconnected ∧
      ∀ err, err.wouldBlock = true → next (.failed err) = .ret s := by
  refine ⟨_, by rw [Call.program, receive_run, if_pos hs]; rfl, rfl, fun err hblock => ?_⟩
  simp only [receiveNext, if_pos hblock, Resumption.ret_bind]

theorem withLocal_receiveAll_steady (hs : s.isConnected = true) (size : Nat) :
    Steady (fun r => r.2 = s) (withLocal (List.replicate size 0) receiveAll s) := by
  rw [withLocal]
  refine (receiveAll_steady hs (List.replicate size 0)).bind ?_
  rintro ⟨r, t, buffer⟩ rfl
  cases r <;> exact .ret rfl

theorem receiveDynamic_steady (hs : s.isConnected = true) (e : Endian) (maxSize : Nat) :
    Steady (fun r => r.2 = s) (receiveDynamic e maxSize s) := by
  rw [receiveDynamic, bind_run]
  refine (withLocal_receiveAll_steady hs prefixSize).bind ?_
  rintro ⟨r, t⟩ rfl
  cases r with
  | error err => exact .ret rfl
  | ok result =>
      simp only
      split
      · exact .ret rfl
      split
      · exact .ret rfl
      rw [bind_run]
      refine (withLocal_receiveAll_steady hs _).bind ?_
      rintro ⟨r, t⟩ rfl
      cases r <;> exact .ret rfl

/-- Every other call leaves a connected socket connected, while the connection is
alive. -/
theorem program_steady (hs : s.isConnected = true) {c : Call} (hclose : c ≠ .close)
    (hempty : c ≠ .receive []) : Steady (· = s) (c.program s) := by
  cases c with
  | close => exact absurd rfl hclose
  | send data => exact (send_steady hs data).left
  | sendAll data => exact (uploads_steady (sendAll_uploads hs data)).left
  | receive buffer => exact (receive_steady hs fun hbuffer => hempty (hbuffer ▸ rfl)).left
  | receiveAll buffer => exact (receiveAll_steady hs buffer).left
  | sendDynamic e data => exact (uploads_steady (sendDynamic_uploads e hs data)).left
  | receiveDynamic e maxSize => exact (receiveDynamic_steady hs e maxSize).left

end Calls

/-! ## Whole runs -/

/-- The socket is connected, and the call that runs leaves it so, while the connection is
alive; but a `receive` with an empty buffer waits for its answer. -/
inductive Live (s : State) : Prop
  | idle (hs : s.socket.isConnected = true) (hidle : s.running = none)
  | busy {c : Call} {p : Program TcpSocket} (hs : s.socket.isConnected = true)
      (hrun : s.running = some (c, p)) (hempty : c ≠ .receive [])
      (hp : Steady (· = s.socket) p)
  | bare {next : Transfer (List UInt8) → Program TcpSocket} (hs : s.socket.isConnected = true)
      (hrun : s.running = some (.receive [], .call (.recv s.socket.fd 0) next))
      (hdone : next (.done []) = .ret s.socket.disconnected)
      (hblock : ∀ err, err.wouldBlock = true → next (.failed err) = .ret s.socket)

namespace Live

variable {s t : State}

/-- A steady call returns or goes on. -/
theorem resume (hsocket : t.socket = s.socket) (hs : s.socket.isConnected = true) {c : Call}
    (hempty : c ≠ .receive []) {p : Program TcpSocket} (hp : Steady (· = s.socket) p) :
    Live (t.resume c p) := by
  rw [← hsocket] at hs hp
  cases p with
  | ret socket =>
      cases hp with
      | ret hleft =>
          subst hleft
          exact .idle hs rfl
  | call op next => exact .busy hs rfl hempty hp

theorem honest (h : Live s) : Honest s := by
  intro hidle hs
  cases h with
  | idle hs' _ => simp [hs] at hs'
  | busy hs' _ _ _ => simp [hs] at hs'
  | bare hs' _ _ _ => simp [hs] at hs'

/-- What does not touch the socket and its call changes nothing. -/
theorem congr (h : Live s) (hsocket : t.socket = s.socket) (hrunning : t.running = s.running) :
    Live t := by
  cases h with
  | idle hs hidle => exact .idle (hsocket ▸ hs) (hrunning.trans hidle)
  | busy hs hrun hempty hp =>
      exact .busy (hsocket ▸ hs) (hrunning.trans hrun) hempty (hsocket ▸ hp)
  | bare hs hrun hdone hblock =>
      rw [← hrunning, ← hsocket] at hrun
      exact .bare (hsocket ▸ hs) hrun (hsocket ▸ hdone) (hsocket ▸ hblock)

end Live

@[simp] theorem resume_taken (s : State) (c : Call) (p : Program TcpSocket) :
    (s.resume c p).taken = s.taken := by
  cases p <;> rfl

@[simp] theorem resume_failed (s : State) (c : Call) (p : Program TcpSocket) :
    (s.resume c p).failed = s.failed := by
  cases p <;> rfl

@[simp] theorem resume_ended (s : State) (c : Call) (p : Program TcpSocket) :
    (s.resume c p).ended = s.ended := by
  cases p <;> rfl

@[simp] theorem resume_incoming (s : State) (c : Call) (p : Program TcpSocket) :
    (s.resume c p).incoming = s.incoming := by
  cases p <;> rfl

/-- What a step can do. -/
inductive Stepped (s : State) : Event → State → Prop
  | call {c : Call} (hidle : s.running = none) :
      Stepped s (.call c)
        ({ s with taken := s.taken || decide (c = Call.close) }.resume c (c.program s.socket))
  | sent {c : Call} {fd : Int} {data : List UInt8} {next : Transfer Nat → Program TcpSocket}
      {k : Nat} (hrun : s.running = some (c, .call (.send fd data) next))
      (hk : k ≤ data.length) : Stepped s (.sent (.done k)) (s.resume c (next (.done k)))
  | sendFailed {c : Call} {fd : Int} {data : List UInt8}
      {next : Transfer Nat → Program TcpSocket} {err : Errno}
      (hrun : s.running = some (c, .call (.send fd data) next)) :
      Stepped s (.sent (.failed err))
        ({ s with failed := s.failed || !err.wouldBlock }.resume c (next (.failed err)))
  | received {c : Call} {fd : Int} {size : Nat}
      {next : Transfer (List UInt8) → Program TcpSocket} {k : Nat}
      (hrun : s.running = some (c, .call (.recv fd size) next)) (hsize : k ≤ size)
      (hlen : k ≤ s.incoming.length) (hzero : k = 0 → size = 0 ∨ s.Over) :
      Stepped s (.received (.done k))
        ({ s with incoming := s.incoming.drop k }.resume c (next (.done (s.incoming.take k))))
  | receiveFailed {c : Call} {fd : Int} {size : Nat}
      {next : Transfer (List UInt8) → Program TcpSocket} {err : Errno}
      (hrun : s.running = some (c, .call (.recv fd size) next)) :
      Stepped s (.received (.failed err))
        ({ s with failed := s.failed || !err.wouldBlock }.resume c (next (.failed err)))
  | closed {c : Call} {fd : Int} {next : Unit → Program TcpSocket}
      (hrun : s.running = some (c, .call (.close fd) next)) :
      Stepped s .closed (s.resume c (next ()))
  | moveAway (hidle : s.running = none) :
      Stepped s .moveAway { s with socket := .disowned, taken := true }
  | arrive {bytes : List UInt8} (hopen : s.ended = false) :
      Stepped s (.arrive bytes) { s with incoming := s.incoming ++ bytes }
  | endStream : Stepped s .endStream { s with ended := true }

theorem step_cases {s t : State} {ev : Event} (h : step s ev = some t) : Stepped s ev t := by
  cases ev with
  | call c =>
      simp only [step] at h
      split at h
      · next hidle =>
          obtain rfl := Option.some.inj h
          exact .call hidle
      · simp at h
  | sent r =>
      simp only [step] at h
      split at h
      · next hrun =>
          split at h
          · obtain ⟨hk, hsome⟩ := Option.ite_none_right_eq_some.mp h
            obtain rfl := Option.some.inj hsome
            exact .sent hrun hk
          · obtain rfl := Option.some.inj h
            exact .sendFailed hrun
      · simp at h
  | received r =>
      simp only [step] at h
      split at h
      · next hrun =>
          split at h
          · obtain ⟨⟨hsize, hlen, hzero⟩, hsome⟩ := Option.ite_none_right_eq_some.mp h
            obtain rfl := Option.some.inj hsome
            exact .received hrun hsize hlen hzero
          · obtain rfl := Option.some.inj h
            exact .receiveFailed hrun
      · simp at h
  | closed =>
      simp only [step] at h
      split at h
      · next hrun =>
          obtain rfl := Option.some.inj h
          exact .closed hrun
      · simp at h
  | moveAway =>
      simp only [step] at h
      split at h
      · next hidle =>
          obtain rfl := Option.some.inj h
          exact .moveAway hidle
      · simp at h
  | arrive bytes =>
      simp only [step] at h
      split at h
      · simp at h
      · next hopen =>
          obtain rfl := Option.some.inj h
          exact .arrive (Bool.eq_false_iff.mpr hopen)
  | endStream =>
      obtain rfl := Option.some.inj h
      exact .endStream

/-- A reason does not go away. -/
theorem Stepped.excused {s t : State} {ev : Event} (h : Stepped s ev t) (hs : s.Excused) :
    t.Excused := by
  rcases hs with htaken | hfailed | ⟨hended, hincoming⟩
  · left
    cases h <;> simp [htaken]
  · right; left
    cases h <;> simp [hfailed]
  · right; right
    cases h with
    -- nothing arrives after the end of the stream
    | arrive hopen => simp [hopen] at hended
    | _ => simp [State.Over, hended, hincoming]

namespace Live

variable {s t : State}

/-- Only a steady call waits in a `::send`. -/
theorem sending (h : Live s) {c : Call} {fd : Int} {data : List UInt8}
    {next : Transfer Nat → Program TcpSocket}
    (hrun : s.running = some (c, .call (.send fd data) next)) :
    s.socket.isConnected = true ∧ c ≠ .receive [] ∧
      (∀ k, k ≤ data.length → Steady (· = s.socket) (next (.done k))) ∧
      ∀ err, err.wouldBlock = true → Steady (· = s.socket) (next (.failed err)) := by
  cases h with
  | idle _ hidle => simp [hidle] at hrun
  | busy hs hrun' hempty hp =>
      obtain ⟨rfl, rfl⟩ := Prod.mk.inj (Option.some.inj (hrun'.symm.trans hrun))
      cases hp with
      | send hdone hblock => exact ⟨hs, hempty, hdone, hblock⟩
  | bare _ hrun' _ _ => simp [hrun'] at hrun

/-- Only a steady call and a `receive` with an empty buffer wait in a `::recv`. -/
theorem receiving (h : Live s) {c : Call} {fd : Int} {size : Nat}
    {next : Transfer (List UInt8) → Program TcpSocket}
    (hrun : s.running = some (c, .call (.recv fd size) next)) :
    s.socket.isConnected = true ∧
      (1 ≤ size ∧ c ≠ .receive [] ∧
          (∀ bytes : List UInt8, 1 ≤ bytes.length → bytes.length ≤ size →
            Steady (· = s.socket) (next (.done bytes))) ∧
          (∀ err, err.wouldBlock = true → Steady (· = s.socket) (next (.failed err))) ∨
        size = 0 ∧ c = .receive [] ∧ next (.done []) = .ret s.socket.disconnected ∧
          ∀ err, err.wouldBlock = true → next (.failed err) = .ret s.socket) := by
  cases h with
  | idle _ hidle => simp [hidle] at hrun
  | busy hs hrun' hempty hp =>
      obtain ⟨rfl, rfl⟩ := Prod.mk.inj (Option.some.inj (hrun'.symm.trans hrun))
      cases hp with
      | recv hpos hdone hblock => exact ⟨hs, .inl ⟨hpos, hempty, hdone, hblock⟩⟩
  | bare hs hrun' hdone hblock =>
      rw [hrun', Option.some.injEq, Prod.mk.injEq, Resumption.call.injEq,
        SysCall.recv.injEq] at hrun
      obtain ⟨rfl, ⟨rfl, rfl⟩, hnext⟩ := hrun
      obtain rfl := eq_of_heq hnext
      exact ⟨hs, .inr ⟨rfl, rfl, hdone, hblock⟩⟩

/-- A failure is a reason to disconnect, unless it says that the call would block. -/
theorem failing {c : Call} {err : Errno} {p : Program TcpSocket}
    (h : err.wouldBlock = true →
      Live ({ s with failed := s.failed || !err.wouldBlock }.resume c p)) :
    ({ s with failed := s.failed || !err.wouldBlock }.resume c p).Excused ∨
      Live ({ s with failed := s.failed || !err.wouldBlock }.resume c p) := by
  cases hblock : err.wouldBlock with
  | true => exact .inr (hblock ▸ h hblock)
  | false => exact .inl (.inr (.inl (by simp)))

theorem isConnected_of_idle (h : Live s) (hidle : s.running = none) :
    s.socket.isConnected = true := by
  cases h with
  | idle hs _ => exact hs
  | busy _ hrun _ _ => simp [hidle] at hrun
  | bare _ hrun _ _ => simp [hidle] at hrun

/-- A step that asks for something leaves the connection alive, or there is a reason to
disconnect. -/
theorem step_of_asks (h : Live s) {ev : Event} (hstep : Stepped s ev t) (hasks : Asks s ev) :
    t.Excused ∨ Live t := by
  by_cases hreason : s.Excused
  · exact .inl (hstep.excused hreason)
  cases hstep with
  | @call c hidle =>
      have hs := h.isConnected_of_idle hidle
      by_cases hclose : c = .close
      · exact .inl (.inl (by simp [hclose]))
      by_cases hempty : c = .receive []
      · -- it waits for the answer to a `::recv` of size 0
        obtain ⟨next, hprogram, hdone, hblock⟩ := receive_nil hs
        subst hempty
        rw [hprogram]
        exact .inr (.bare hs rfl hdone hblock)
      · refine .inr (resume ?_ hs hempty (program_steady hs hclose hempty))
        rfl
  | sent hrun hk =>
      obtain ⟨hs, hempty, hdone, -⟩ := h.sending hrun
      exact .inr (resume rfl hs hempty (hdone _ hk))
  | sendFailed hrun =>
      obtain ⟨hs, hempty, -, hblock⟩ := h.sending hrun
      refine failing fun hwould => resume ?_ hs hempty (hblock _ hwould)
      rfl
  | @received c fd size next k hrun hsize hlen hzero =>
      obtain ⟨hs, ⟨hpos, hempty, hdone, -⟩ | ⟨rfl, rfl, -⟩⟩ := h.receiving hrun
      · -- a count of 0 would be the end of the stream
        have hk : k ≠ 0 := fun hk => by
          rcases hzero hk with hnone | hover
          · omega
          · exact hreason (.inr (.inr hover))
        have htake : (s.incoming.take k).length = k := List.length_take_of_le hlen
        refine .inr (resume ?_ hs hempty (hdone _ (by omega) (by omega)))
        rfl
      · obtain rfl : k = 0 := Nat.le_zero.mp hsize
        exact absurd (hasks (by rw [State.asksNothing, hrun])) hreason
  | @receiveFailed c fd size next err hrun =>
      obtain ⟨hs, ⟨-, hempty, -, hblock⟩ | ⟨-, -, -, hblock⟩⟩ := h.receiving hrun
      · refine failing fun hwould => resume ?_ hs hempty (hblock _ hwould)
        rfl
      · refine failing fun hwould => ?_
        rw [hblock err hwould]
        exact .idle hs rfl
  | closed hrun =>
      cases h with
      | idle _ hidle => simp [hidle] at hrun
      | busy _ hrun' _ hp =>
          obtain ⟨rfl, rfl⟩ := Prod.mk.inj (Option.some.inj (hrun'.symm.trans hrun))
          cases hp
      | bare _ hrun' _ _ => simp [hrun'] at hrun
  -- the owner has given the descriptor away
  | moveAway _ => exact .inl (.inl rfl)
  -- the peer does not touch the socket
  | arrive _ => exact .inr (h.congr rfl rfl)
  | endStream => exact .inr (h.congr rfl rfl)

/-- A step that asks for nothing disconnects the socket. -/
theorem not_honest (h : Live s) {ev : Event} (hstep : Stepped s ev t) (hasks : ¬Asks s ev) :
    ¬Honest t := by
  cases hstep with
  | @received c fd size next k hrun hsize hlen hzero =>
      cases k with
      | succ k => exact absurd trivial hasks
      | zero =>
          obtain ⟨hnothing, hreason⟩ := Classical.not_imp.mp hasks
          obtain ⟨-, ⟨-, hempty, -⟩ | ⟨-, -, hdone, -⟩⟩ := h.receiving hrun
          · rw [State.asksNothing, hrun] at hnothing
            split at hnothing
            · next hsome =>
                obtain ⟨rfl, -⟩ := Prod.mk.inj (Option.some.inj hsome)
                exact absurd rfl hempty
            · simp at hnothing
          · rw [List.take_zero, List.drop_zero, hdone]
            exact fun hhonest => hreason (hhonest rfl rfl)
  | _ => exact absurd trivial hasks

end Live

theorem asks_of_excused {s : State} (h : s.Excused) (ev : Event) : Asks s ev := by
  unfold Asks
  split
  · exact fun _ => h
  · trivial

/-- In a whole run the socket is reported as not connected for a reason only, exactly when
no `::recv` for an empty buffer returns 0 while there is none. -/
theorem honest_iff_asks {s : TcpSocket} (hs : s.isConnected = true) {es : List Event} {t : State}
    (hrun : (machine s).run (.start s) es = some t) :
    (machine s).Always Honest (.start s) es ↔ (machine s).Guarded Asks (.start s) es := by
  have hlive : Live (.start s) := .idle hs rfl
  refine Machine.always_iff_guarded (I := fun u => Honest u → u.Excused ∨ Live u) ?_
    (fun _ => .inr hlive) hlive.honest hrun
  intro u ev v hinv hhonest hstep
  have hstepped := step_cases hstep
  have hends (hasks : Asks u ev) : v.Excused ∨ Live v := by
    rcases hinv hhonest with hreason | hu
    · exact .inl (hstepped.excused hreason)
    · exact hu.step_of_asks hstepped hasks
  have hbad (hasks : ¬Asks u ev) : ¬Honest v := by
    rcases hinv hhonest with hreason | hu
    · exact absurd (asks_of_excused hreason ev) hasks
    · exact hu.not_honest hstepped hasks
  refine ⟨fun hv => hends ?_, ⟨fun hv => ?_, fun hasks => ?_⟩⟩
  · by_contra hasks
    exact hbad hasks hv
  · by_contra hasks
    exact hbad hasks hv
  · rcases hends hasks with hreason | hv
    · exact fun _ _ => hreason
    · exact hv.honest

/-- A transfer, one that would block, and the end of the stream, which an empty buffer may
report. -/
theorem honest_iff_asks_ended :
    (machine ⟨3, true⟩).Always Honest (.start ⟨3, true⟩)
      [.call (.receive [0, 0]), .arrive [7], .received (.done 1), .call (.send [1, 2]),
        .sent (.failed .eagain), .endStream, .call (.receive []), .received (.done 0)] :=
  (honest_iff_asks (s := ⟨3, true⟩) rfl rfl).mpr (by decide)

/-- An empty buffer on a connection that has just been made. -/
theorem not_always_honest :
    ¬(machine ⟨3, true⟩).Always Honest (.start ⟨3, true⟩)
      [.call (.receive []), .received (.done 0)] := by
  refine Machine.not_always_of_run (t := ⟨⟨3, false⟩, none, [], false, false, false⟩) rfl ?_
  intro hhonest
  have hreason := hhonest rfl rfl
  revert hreason
  decide

end Liveness
end DocaStdexec
