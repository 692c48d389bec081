import DocaStdexec.Common.Framing
import DocaStdexec.Lib.Machine
import DocaStdexec.Lib.Reading

/-!
# A stream that breaks off

The peer sends frames and may stop for good at any byte, in the middle of a length
prefix as well as of a payload; a `::recv` may fail, and may say that it would block.
The receiver calls `receive_dynamic` again and again, also after calls that throw.

`Intact` says what such a receiver can rely on: it gets the first of the messages, in order,
and nothing of a message that was not sent in full; and if the stream ends without an error,
it gets all that were.  An error that disconnects the socket keeps this, since nothing is
read after it.  A `::recv` that would block inside a frame loses the bytes that the call has
read, and `alwaysIntact_iff` says that this is the only way to lose it.
-/

namespace DocaStdexec
namespace TornStream

open Lib Lib.Method
open Tcp Tcp.TcpSocket

/-- How an interrupted call of `receive_dynamic` on `s` comes out. -/
def Interrupted {α : Type} (s : TcpSocket) : Stop → Except SocketError α × TcpSocket → Prop
  | .blocked, r => r = (.error .closedDuringReceiveAll, s)
  | .ended, r => r = (.error .closedDuringReceiveAll, s.disconnected)
  | .failed, r => r = (.error .receiveFailed, s.disconnected)

theorem withLocal_receiveAll_reading {s : TcpSocket} (hs : s.isConnected = true)
    (bytes : List UInt8) :
    Reading s.fd (fun r => r = (.ok (⟨⟩, bytes), s)) (Interrupted s) bytes
      (withLocal (List.replicate bytes.length 0) receiveAll s) := by
  have hread := (receiveAll_downloads hs (List.replicate bytes.length 0)).reading bytes
    List.length_replicate.symm
  rw [withLocal]
  refine hread.bind_done ?_ ?_
  · rintro _ rfl
    exact .ret rfl
  · rintro (_ | _ | _) _ ⟨got, rfl⟩ <;> exact ⟨_, rfl, rfl⟩

/-- `receive_dynamic` reads one frame, or is interrupted in it. -/
theorem receiveDynamic_reading (e : Endian) {s : TcpSocket} (hs : s.isConnected = true)
    (data : List UInt8) (hlen : data.length < 2 ^ 32) {maxSize : Nat}
    (hmax : data.length ≤ maxSize) :
    Reading s.fd (fun r => r = (.ok data, s)) (Interrupted s) (frame e data)
      (receiveDynamic e maxSize s) := by
  have hlength := withLocal_receiveAll_reading hs
    (e.toBytes prefixSize (e.htonl data.length))
  rw [Endian.length_toBytes] at hlength
  refine hlength.bind ?_ ?_
  · rintro _ rfl
    simp only [htonl_ofBytes_toBytes, Nat.mod_eq_of_lt hlen]
    rw [if_neg (Nat.not_lt.mpr hmax)]
    by_cases hempty : data.length = 0
    · obtain rfl := List.length_eq_zero_iff.mp hempty
      exact .ret rfl
    · rw [if_neg hempty, bind_run]
      refine (withLocal_receiveAll_reading hs data).bind_done ?_ ?_
      · rintro _ rfl
        exact .ret rfl
      · rintro (_ | _ | _) _ rfl <;> exact ⟨_, rfl, rfl⟩
  · rintro (_ | _ | _) _ rfl <;> exact ⟨_, rfl, rfl⟩

theorem receiveDynamic_notConnected (e : Endian) {s : TcpSocket} (hs : s.isConnected = false)
    (maxSize : Nat) : receiveDynamic e maxSize s = .ret (.error .notConnected, s) := by
  have hne : List.replicate prefixSize (0 : UInt8) ≠ [] := by decide
  simp only [receiveDynamic, bind_run, withLocal, receiveAll_notConnected hs hne,
    Resumption.ret_bind]

/-! ## The receiver and its stream -/

/-- The receiver between two calls, or in a call that has read `got` so far. -/
inductive Peer
  | idle (socket : TcpSocket)
  | running (got : List UInt8) (p : Program (Except SocketError (List UInt8) × TcpSocket))

structure State where
  peer : Peer
  /-- How many bytes of the frames the peer has put on the stream. -/
  sent : Nat
  /-- How many of them the receiver has taken. -/
  taken : Nat
  /-- The peer has closed or died. -/
  ended : Bool
  /-- A `::recv` has failed otherwise than by `EAGAIN` or `EWOULDBLOCK`. -/
  failed : Bool
  /-- What each call that ended gave, oldest first. -/
  results : List (Except SocketError (List UInt8))

namespace State

/-- The messages that calls have returned. -/
def delivered (s : State) : List (List UInt8) :=
  s.results.filterMap fun
    | .ok msg => some msg
    | .error _ => none

/-- A call ends with the last step of its program. -/
def settle (s : State) (got : List UInt8) :
    Program (Except SocketError (List UInt8) × TcpSocket) → State
  | .ret (r, socket) => { s with peer := .idle socket, results := s.results ++ [r] }
  | .call op next => { s with peer := .running got (.call op next) }

end State

inductive Event
  /-- The peer puts `k` more bytes on the stream. -/
  | put (k : Nat)
  | hangUp
  | receiveDynamic (maxSize : Nat)
  /-- The answer to the `::recv` that the running call waits in. -/
  | recv (r : Transfer Nat)

section System

variable (e : Endian) (b : TcpSocket) (msgs : List (List UInt8))

/-- The frames of the messages. -/
def wire (msgs : List (List UInt8)) : List UInt8 := msgs.flatMap (frame e)

def State.init : State := ⟨.idle b, 0, 0, false, false, []⟩

/-- The message that the receiver has to get next. -/
def State.next (s : State) : Option (List UInt8) := msgs[s.delivered.length]?

/-- A `::recv` of at most `size` bytes on a stream that may have ended. -/
def step (s : State) : Event → Option State
  | .put k =>
      if s.ended = false ∧ s.sent + k ≤ (wire e msgs).length then
        some { s with sent := s.sent + k }
      else none
  | .hangUp => if s.ended then none else some { s with ended := true }
  | .receiveDynamic maxSize =>
      match s.peer with
      | .idle socket =>
          -- `max_size` is no smaller than the next message
          if (s.next msgs).all fun data => data.length ≤ maxSize then
            some (s.settle [] (receiveDynamic e maxSize socket))
          else none
      | .running _ _ => none
  | .recv r =>
      match s.peer with
      | .running got (.call (.recv fd size) next) =>
          if fd = b.fd then
            match r with
            | .done k =>
                -- a count of 0 is the end of the stream
                if k ≤ size ∧ s.taken + k ≤ s.sent ∧
                    (k = 0 → s.ended = true ∧ s.taken = s.sent) then
                  let bytes := ((wire e msgs).drop s.taken).take k
                  some (State.settle { s with taken := s.taken + k } (got ++ bytes)
                    (next (.done bytes)))
                else none
            | .failed err =>
                some (State.settle { s with failed := s.failed || !err.wouldBlock } got
                  (next (.failed err)))
          else none
      | _ => none

def machine : Machine State Event := ⟨State.init b, step e b msgs⟩

/-- The receiver has got the first of the messages, and what it has taken are their frames,
with less than another frame behind them if the connection is lost.  Unless a `::recv`
failed, these are then all the messages that were sent in full. -/
structure Intact (s : State) : Prop where
  delivered : s.delivered = msgs.take s.delivered.length
  connected : ∀ socket, s.peer = .idle socket → socket.isConnected = true →
    (wire e msgs).take s.taken = wire e s.delivered
  lost : ∀ socket, s.peer = .idle socket → socket.isConnected = false →
    ∃ part, (wire e msgs).take s.taken = wire e s.delivered ++ part ∧
      part <+: frame e ((s.next msgs).getD []) ∧ part ≠ frame e ((s.next msgs).getD []) ∧
      (s.failed = true ∨ s.ended = true ∧ s.taken = s.sent)
  complete : ∀ socket, s.peer = .idle socket → socket.isConnected = false → s.failed = false →
    ∀ n ≤ msgs.length, (wire e (msgs.take n)).length ≤ s.sent → n ≤ s.delivered.length

/-- A `::recv` does not say that it would block when the call has read a part of its
frame. -/
def Unbroken (s : State) (ev : Event) : Prop :=
  ∀ err got p, ev = .recv (.failed err) → err.wouldBlock = true → s.peer = .running got p →
    got = []

/-- Everything a step can do. -/
inductive Effect (s : State) : Event → State → Prop
  | put {k : Nat} (hopen : s.ended = false) (hk : s.sent + k ≤ (wire e msgs).length) :
      Effect s (.put k) { s with sent := s.sent + k }
  | hangUp (hopen : s.ended = false) : Effect s .hangUp { s with ended := true }
  | receiveDynamic {maxSize : Nat} {socket : TcpSocket} (hidle : s.peer = .idle socket)
      (hmax : ∀ data, s.next msgs = some data → data.length ≤ maxSize) :
      Effect s (.receiveDynamic maxSize) (s.settle [] (receiveDynamic e maxSize socket))
  | recv {k size : Nat} {got : List UInt8}
      {next : Transfer (List UInt8) → Program (Except SocketError (List UInt8) × TcpSocket)}
      (hrunning : s.peer = .running got (.call (.recv b.fd size) next)) (hk : k ≤ size)
      (hsent : s.taken + k ≤ s.sent) (hend : k = 0 → s.ended = true ∧ s.taken = s.sent) :
      Effect s (.recv (.done k))
        (State.settle { s with taken := s.taken + k }
          (got ++ ((wire e msgs).drop s.taken).take k)
          (next (.done (((wire e msgs).drop s.taken).take k))))
  | failed {err : Errno} {size : Nat} {got : List UInt8}
      {next : Transfer (List UInt8) → Program (Except SocketError (List UInt8) × TcpSocket)}
      (hrunning : s.peer = .running got (.call (.recv b.fd size) next)) :
      Effect s (.recv (.failed err))
        (State.settle { s with failed := s.failed || !err.wouldBlock } got (next (.failed err)))

theorem step_effect {s t : State} {ev : Event} (hstep : step e b msgs s ev = some t) :
    Effect e b msgs s ev t := by
  cases ev with
  | put k =>
      obtain ⟨⟨hopen, hk⟩, hsome⟩ := Option.ite_none_right_eq_some.mp hstep
      exact Option.some.inj hsome ▸ .put hopen hk
  | hangUp =>
      obtain ⟨hopen, hsome⟩ := Option.ite_none_left_eq_some.mp hstep
      exact Option.some.inj hsome ▸ .hangUp (Bool.eq_false_of_not_eq_true hopen)
  | receiveDynamic maxSize =>
      simp only [step] at hstep
      split at hstep
      · next hidle =>
          obtain ⟨hall, hsome⟩ := Option.ite_none_right_eq_some.mp hstep
          refine Option.some.inj hsome ▸ .receiveDynamic hidle fun data hdata => ?_
          simpa [hdata] using hall
      · simp at hstep
  | recv r =>
      simp only [step] at hstep
      split at hstep
      · next hrunning =>
          obtain ⟨rfl, hsome⟩ := Option.ite_none_right_eq_some.mp hstep
          split at hsome
          · obtain ⟨⟨hk, hsent, hend⟩, hsome⟩ := Option.ite_none_right_eq_some.mp hsome
            exact Option.some.inj hsome ▸ .recv hrunning hk hsent hend
          · exact Option.some.inj hsome ▸ .failed hrunning
      · simp at hstep

/-- Where the receiver stands as long as the stream has not been broken inside a
frame. -/
inductive PeerAt (s : State) : Peer → Prop
  | idle (htaken : (wire e msgs).take s.taken = wire e s.delivered) : PeerAt s (.idle b)
  | lost {part : List UInt8}
      (htaken : (wire e msgs).take s.taken = wire e s.delivered ++ part)
      (hpart : part <+: frame e ((s.next msgs).getD []))
      (hne : part ≠ frame e ((s.next msgs).getD []))
      (hwhy : s.failed = true ∨ s.ended = true ∧ s.taken = s.sent) :
      PeerAt s (.idle b.disconnected)
  | reading {got inn : List UInt8} {op : SysCall}
      {next : op.Answer → Program (Except SocketError (List UInt8) × TcpSocket)}
      (htaken : (wire e msgs).take s.taken = wire e s.delivered ++ got)
      (hframe : got ++ inn = frame e ((s.next msgs).getD []))
      (h : Reading b.fd (fun r => r = (.ok ((s.next msgs).getD []), b)) (Interrupted b) inn
        (.call op next)) :
      PeerAt s (.running got (.call op next))

/-- The counts are in order, and so is what has been delivered. -/
structure Sound (s : State) : Prop where
  sent_le : s.sent ≤ (wire e msgs).length
  taken_le : s.taken ≤ s.sent
  delivered : s.delivered = msgs.take s.delivered.length

structure Inv (s : State) : Prop extends Sound e msgs s where
  peer : PeerAt e b msgs s s.peer

variable {e b msgs} {s t : State}

theorem wire_append (l l' : List (List UInt8)) : wire e (l ++ l') = wire e l ++ wire e l' :=
  List.flatMap_append

theorem inv_init : Inv e b msgs (State.init b) :=
  ⟨⟨Nat.zero_le _, le_rfl, rfl⟩, .idle rfl⟩

/-- What the receiver has not taken starts with the rest of the next frame. -/
theorem Sound.unread (h : Sound e msgs s) {data got inn : List UInt8}
    (hnext : s.next msgs = some data)
    (htaken : (wire e msgs).take s.taken = wire e s.delivered ++ got)
    (hframe : got ++ inn = frame e data) :
    (wire e msgs).drop s.taken = inn ++ wire e (msgs.drop (s.delivered.length + 1)) := by
  obtain ⟨hn, hdata⟩ := List.getElem?_eq_some_iff.mp hnext
  have hsplit : wire e msgs =
      wire e s.delivered ++ (got ++ (inn ++ wire e (msgs.drop (s.delivered.length + 1)))) := by
    have hmsgs := List.take_append_drop s.delivered.length msgs
    rw [← h.delivered, List.drop_eq_getElem_cons hn, hdata] at hmsgs
    rw [← List.append_assoc got, hframe]
    conv_lhs => rw [← hmsgs]
    rw [wire_append]
    rfl
  have hcut := List.take_append_drop s.taken (wire e msgs)
  rw [htaken] at hcut
  conv_rhs at hcut => rw [hsplit]
  rw [List.append_assoc] at hcut
  exact List.append_cancel_left (List.append_cancel_left hcut)

/-- After the last message there is nothing to take. -/
theorem Sound.taken_of_none (h : Sound e msgs s) (hnext : s.next msgs = none) {got : List UInt8}
    (htaken : (wire e msgs).take s.taken = wire e s.delivered ++ got) :
    s.sent ≤ s.taken := by
  have hall : s.delivered = msgs := by
    rw [h.delivered]
    exact List.take_of_length_le (List.getElem?_eq_none_iff.mp hnext)
  have hlen := congrArg List.length htaken
  have hle := h.sent_le
  rw [hall, List.length_append, List.length_take] at hlen
  omega

theorem delivered_settle_error (s : State) (got : List UInt8) (err : SocketError)
    (socket : TcpSocket) :
    (s.settle got (.ret (.error err, socket))).delivered = s.delivered := by
  simp [State.settle, State.delivered]

theorem delivered_settle_ok {got : List UInt8} (msg : List UInt8) (socket : TcpSocket) :
    (s.settle got (.ret (.ok msg, socket))).delivered = s.delivered ++ [msg] := by
  simp [State.settle, State.delivered]

/-- A call that has read a part of the next frame goes on or returns the message. -/
theorem Sound.settle (h : Sound e msgs s) {got inn : List UInt8}
    {p : Program (Except SocketError (List UInt8) × TcpSocket)}
    (htaken : (wire e msgs).take s.taken = wire e s.delivered ++ got)
    (hframe : got ++ inn = frame e ((s.next msgs).getD []))
    (hsome : got = [] ∨ s.next msgs ≠ none)
    (hp : Reading b.fd (fun r => r = (.ok ((s.next msgs).getD []), b)) (Interrupted b) inn p) :
    Inv e b msgs (s.settle got p) := by
  cases p with
  | call op next =>
      exact ⟨⟨h.sent_le, h.taken_le, h.delivered⟩, .reading htaken hframe hp⟩
  | ret r =>
      obtain ⟨rfl, rfl⟩ := hp.of_ret
      rw [List.append_nil] at hframe
      obtain ⟨data, hdata⟩ : ∃ data, s.next msgs = some data := by
        refine Option.ne_none_iff_exists'.mp (hsome.resolve_left fun hnil => ?_)
        exact frame_ne_nil e _ (hframe.symm.trans hnil)
      have hget : (s.next msgs).getD [] = data := by rw [hdata, Option.getD_some]
      rw [hget] at hframe ⊢
      obtain ⟨hn, hmsg⟩ := List.getElem?_eq_some_iff.mp hdata
      have hdelivered : s.delivered ++ [data] = msgs.take (s.delivered.length + 1) := by
        rw [List.take_succ_eq_append_getElem hn, hmsg, ← h.delivered]
      refine ⟨⟨h.sent_le, h.taken_le, ?_⟩, .idle ?_⟩
      · rw [delivered_settle_ok, List.length_append, List.length_singleton, hdelivered]
      · show (wire e msgs).take s.taken = _
        rw [delivered_settle_ok, wire_append, htaken, hframe]
        simp [wire]

/-- A call that is interrupted by a failure or by the end of the stream. -/
theorem Sound.settle_lost (h : Sound e msgs s) {got inn : List UInt8}
    (htaken : (wire e msgs).take s.taken = wire e s.delivered ++ got)
    (hframe : got ++ inn = frame e ((s.next msgs).getD [])) (hinn : inn ≠ [])
    (hwhy : s.failed = true ∨ s.ended = true ∧ s.taken = s.sent) (err : SocketError) :
    Inv e b msgs (s.settle got (.ret (.error err, b.disconnected))) := by
  have hsame := delivered_settle_error s got err b.disconnected
  have hpart : got <+: frame e ((s.next msgs).getD []) := ⟨inn, hframe⟩
  have hne : got ≠ frame e ((s.next msgs).getD []) := by
    intro heq
    rw [← heq] at hframe
    exact hinn (List.append_right_eq_self.mp hframe)
  refine ⟨⟨h.sent_le, h.taken_le, ?_⟩, .lost (?_ : _ = _ ++ got) ?_ ?_ hwhy⟩
  · rw [hsame]
    exact h.delivered
  · rw [hsame]
    exact htaken
  · rw [State.next, hsame]
    exact hpart
  · rw [State.next, hsame]
    exact hne

/-- The message that the receiver has to get next fits its prefix. -/
theorem length_next (hmsgs : ∀ data ∈ msgs, data.length < 2 ^ 32) (s : State) :
    ((s.next msgs).getD []).length < 2 ^ 32 := by
  cases hnext : s.next msgs with
  | none => exact Nat.two_pow_pos 32
  | some data => exact hmsgs data (List.mem_of_getElem? hnext)

theorem Inv.receiveDynamic (h : Inv e b msgs s) (hb : b.isConnected = true)
    (hmsgs : ∀ data ∈ msgs, data.length < 2 ^ 32) {maxSize : Nat} {socket : TcpSocket}
    (hidle : s.peer = .idle socket)
    (hmax : ∀ data, s.next msgs = some data → data.length ≤ maxSize) :
    Inv e b msgs (s.settle [] (TcpSocket.receiveDynamic e maxSize socket)) := by
  have hpeer := hidle ▸ h.peer
  cases hpeer with
  | idle htaken =>
      have hmax' : ((s.next msgs).getD []).length ≤ maxSize := by
        cases hnext : s.next msgs with
        | none => exact Nat.zero_le _
        | some data => exact hmax data hnext
      refine h.toSound.settle (by rwa [List.append_nil]) (List.nil_append _) (.inl rfl) ?_
      exact receiveDynamic_reading e hb _ (length_next hmsgs s) hmax'
  | lost htaken hpart hne hwhy =>
      rw [receiveDynamic_notConnected e (by simp [isConnected, disconnected])]
      have hsame := delivered_settle_error s [] .notConnected b.disconnected
      refine ⟨⟨h.sent_le, h.taken_le, ?_⟩, .lost (by rw [hsame]; exact htaken) ?_ ?_ hwhy⟩
      · rw [hsame]
        exact h.delivered
      · rw [State.next, hsame]
        exact hpart
      · rw [State.next, hsame]
        exact hne

theorem PeerAt.of_running {got : List UInt8} {op : SysCall}
    {next : op.Answer → Program (Except SocketError (List UInt8) × TcpSocket)}
    (h : PeerAt e b msgs s (.running got (.call op next))) :
    ∃ inn, (wire e msgs).take s.taken = wire e s.delivered ++ got ∧
      got ++ inn = frame e ((s.next msgs).getD []) ∧
      Reading b.fd (fun r => r = (.ok ((s.next msgs).getD []), b)) (Interrupted b) inn
        (.call op next) := by
  cases h with
  | reading htaken hframe h => exact ⟨_, htaken, hframe, h⟩

theorem Inv.recv (h : Inv e b msgs s) {k size : Nat} {got : List UInt8}
    {next : Transfer (List UInt8) → Program (Except SocketError (List UInt8) × TcpSocket)}
    (hrunning : s.peer = .running got (.call (.recv b.fd size) next)) (hk : k ≤ size)
    (hsent : s.taken + k ≤ s.sent) (hend : k = 0 → s.ended = true ∧ s.taken = s.sent) :
    Inv e b msgs (State.settle { s with taken := s.taken + k }
      (got ++ ((wire e msgs).drop s.taken).take k)
      (next (.done (((wire e msgs).drop s.taken).take k)))) := by
  have hpeer := hrunning ▸ h.peer
  obtain ⟨inn, htaken, hframe, hread⟩ := hpeer.of_running
  cases hread with
  | recv hpos hsize hnext hstop =>
      by_cases hzero : k = 0
      · subst hzero
        obtain ⟨hended, hall⟩ := hend rfl
        obtain ⟨_, hret, rfl⟩ := hstop (.done []) .ended rfl
        rw [List.take_zero, List.append_nil, hret]
        have hinn : inn ≠ [] := List.length_pos_iff.mp (by omega)
        exact h.toSound.settle_lost htaken hframe hinn (.inr ⟨hended, hall⟩) _
      · have hle := h.sent_le
        cases hnone : s.next msgs with
        | none =>
            -- after the last message nothing arrives
            have hover := h.toSound.taken_of_none hnone htaken
            omega
        | some data =>
            have hdata : (s.next msgs).getD [] = data := by rw [hnone, Option.getD_some]
            have hunread := h.toSound.unread hnone htaken (hdata ▸ hframe)
            have hbytes : ((wire e msgs).drop s.taken).take k = inn.take k := by
              rw [hunread, List.take_append_of_le_length (hk.trans hsize)]
            have hmoved : Sound e msgs { s with taken := s.taken + k } :=
              ⟨h.sent_le, hsent, h.delivered⟩
            rw [hbytes]
            refine hmoved.settle ?_ (?_ : _ ++ inn.drop k = _) (.inr ?_)
              (hnext k (Nat.one_le_iff_ne_zero.mpr hzero) hk)
            · show (wire e msgs).take (s.taken + k) = wire e s.delivered ++ (got ++ inn.take k)
              rw [List.take_add, htaken, hbytes, List.append_assoc]
            · rw [List.append_assoc, List.take_append_drop]
              exact hframe
            · show s.next msgs ≠ none
              rw [hnone]
              exact Option.some_ne_none data

/-- A `::recv` that fails otherwise than by blocking. -/
theorem Inv.fail (h : Inv e b msgs s) {err : Errno} {size : Nat} {got : List UInt8}
    {next : Transfer (List UInt8) → Program (Except SocketError (List UInt8) × TcpSocket)}
    (hrunning : s.peer = .running got (.call (.recv b.fd size) next))
    (herr : err.wouldBlock = false) :
    Inv e b msgs (State.settle { s with failed := s.failed || !err.wouldBlock } got
      (next (.failed err))) := by
  have hpeer := hrunning ▸ h.peer
  obtain ⟨inn, htaken, hframe, hread⟩ := hpeer.of_running
  cases hread with
  | recv hpos hsize hnext hstop =>
      obtain ⟨_, hret, rfl⟩ := hstop (.failed err) .failed (by simp [Transfer.stop, herr])
      have hinn : inn ≠ [] := List.length_pos_iff.mp (by omega)
      have hfailed : Sound e msgs { s with failed := s.failed || !err.wouldBlock } :=
        ⟨h.sent_le, h.taken_le, h.delivered⟩
      rw [hret]
      exact hfailed.settle_lost htaken hframe hinn (.inl (by simp [herr])) _

/-- A `::recv` that would block ends the call and leaves the socket connected. -/
theorem Inv.block (h : Inv e b msgs s) {err : Errno} {size : Nat} {got : List UInt8}
    {next : Transfer (List UInt8) → Program (Except SocketError (List UInt8) × TcpSocket)}
    (hrunning : s.peer = .running got (.call (.recv b.fd size) next))
    (herr : err.wouldBlock = true)
    (ht : State.settle { s with failed := s.failed || !err.wouldBlock } got
      (next (.failed err)) = t) :
    t.peer = .idle b ∧ (wire e msgs).take t.taken = wire e t.delivered ++ got ∧
      Sound e msgs t := by
  have hpeer := hrunning ▸ h.peer
  obtain ⟨inn, htaken, hframe, hread⟩ := hpeer.of_running
  cases hread with
  | recv hpos hsize hnext hstop =>
      obtain ⟨_, hret, rfl⟩ := hstop (.failed err) .blocked (by simp [Transfer.stop, herr])
      have hsame := delivered_settle_error { s with failed := s.failed || !err.wouldBlock } got
        .closedDuringReceiveAll b
      rw [hret] at ht
      subst ht
      refine ⟨rfl, ?_, h.sent_le, h.taken_le, ?_⟩
      · rw [hsame]
        exact htaken
      · rw [hsame]
        exact h.delivered

/-- Only the counts of the peer and the reasons to stop have changed. -/
theorem PeerAt.of_same {p : Peer} (h : PeerAt e b msgs s p) (htaken : t.taken = s.taken)
    (hresults : t.results = s.results)
    (hwhy : s.failed = true ∨ s.ended = true ∧ s.taken = s.sent →
      t.failed = true ∨ t.ended = true ∧ t.taken = t.sent) : PeerAt e b msgs t p := by
  have hdelivered : t.delivered = s.delivered := by rw [State.delivered, hresults]; rfl
  have hnext : t.next msgs = s.next msgs := by rw [State.next, hdelivered]; rfl
  cases h with
  | idle h => exact .idle (by rw [htaken, hdelivered, h])
  | lost h hpart hne why =>
      exact .lost (by rw [htaken, hdelivered, h]) (hnext ▸ hpart) (hnext ▸ hne) (hwhy why)
  | reading h hframe hread =>
      exact .reading (by rw [htaken, hdelivered, h]) (hnext ▸ hframe) (hnext ▸ hread)

/-- When all that was sent has been taken, the messages that were sent in full have been
delivered. -/
theorem Sound.le_delivered (h : Sound e msgs s) {part : List UInt8}
    (htaken : (wire e msgs).take s.taken = wire e s.delivered ++ part)
    (hpart : part <+: frame e ((s.next msgs).getD []))
    (hne : part ≠ frame e ((s.next msgs).getD [])) (hall : s.taken = s.sent) {n : Nat}
    (hn : n ≤ msgs.length) (hsent : (wire e (msgs.take n)).length ≤ s.sent) :
    n ≤ s.delivered.length := by
  by_contra hlt
  have hnext : s.delivered.length < msgs.length := by omega
  have hget : (s.next msgs).getD [] = msgs[s.delivered.length] := by simp [State.next, hnext]
  have hone : wire e (msgs.take (s.delivered.length + 1)) =
      wire e s.delivered ++ frame e msgs[s.delivered.length] := by
    rw [List.take_succ_eq_append_getElem hnext, wire_append, ← h.delivered]
    simp [wire]
  have hmore : (wire e (msgs.take (s.delivered.length + 1))).length ≤
      (wire e (msgs.take n)).length := by
    obtain ⟨rest, hrest⟩ :=
      List.take_prefix_take_left (show s.delivered.length + 1 ≤ n by omega) (l := msgs)
    rw [← hrest, wire_append, List.length_append]
    exact Nat.le_add_right _ _
  have hshort : part.length < (frame e msgs[s.delivered.length]).length := by
    rw [← hget]
    exact lt_of_le_of_ne hpart.length_le fun heq => hne (hpart.eq_of_length heq)
  have htook := congrArg List.length htaken
  have hsentLe := h.sent_le
  rw [List.length_take, List.length_append] at htook
  rw [hone, List.length_append] at hmore
  omega

theorem Inv.intact (h : Inv e b msgs s) (hb : b.isConnected = true) : Intact e msgs s := by
  refine ⟨h.delivered, fun socket hidle hs => ?_, fun socket hidle hs => ?_,
    fun socket hidle hs hfailed n hn hsent => ?_⟩
  · have hpeer := hidle ▸ h.peer
    cases hpeer with
    | idle htaken => exact htaken
    | lost => simp [isConnected, disconnected] at hs
  · have hpeer := hidle ▸ h.peer
    cases hpeer with
    | idle htaken => simp [hb] at hs
    | lost htaken hpart hne hwhy => exact ⟨_, htaken, hpart, hne, hwhy⟩
  · have hpeer := hidle ▸ h.peer
    cases hpeer with
    | idle htaken => simp [hb] at hs
    | lost htaken hpart hne hwhy =>
        obtain ⟨-, hall⟩ := hwhy.resolve_left (by simp [hfailed])
        exact h.toSound.le_delivered htaken hpart hne hall hn hsent

theorem unbroken_of_ne {ev : Event} (h : ∀ err, ev ≠ .recv (.failed err)) : Unbroken s ev :=
  fun err _ _ hev => absurd hev (h err)

/-- A step from a good state leads to a good state exactly when it does not break the
stream. -/
theorem Inv.step (h : Inv e b msgs s) (hb : b.isConnected = true)
    (hmsgs : ∀ data ∈ msgs, data.length < 2 ^ 32) {ev : Event}
    (hstep : step e b msgs s ev = some t) :
    (Unbroken s ev → Inv e b msgs t) ∧ (¬Unbroken s ev → ¬Intact e msgs t) := by
  cases step_effect e b msgs hstep with
  | put hopen hk =>
      refine ⟨fun _ => ⟨⟨hk, h.taken_le.trans (Nat.le_add_right _ _), h.delivered⟩, ?_⟩,
        fun hnot => absurd (unbroken_of_ne (by simp)) hnot⟩
      exact h.peer.of_same rfl rfl fun hwhy => hwhy.imp_right fun hend => by simp [hopen] at hend
  | hangUp hopen =>
      refine ⟨fun _ => ⟨⟨h.sent_le, h.taken_le, h.delivered⟩, ?_⟩,
        fun hnot => absurd (unbroken_of_ne (by simp)) hnot⟩
      exact h.peer.of_same rfl rfl fun hwhy => hwhy.imp_right fun hend => ⟨rfl, hend.2⟩
  | receiveDynamic hidle hmax =>
      exact ⟨fun _ => h.receiveDynamic hb hmsgs hidle hmax,
        fun hnot => absurd (unbroken_of_ne (by simp)) hnot⟩
  | recv hrunning hk hsent hend =>
      exact ⟨fun _ => h.recv hrunning hk hsent hend,
        fun hnot => absurd (unbroken_of_ne (by simp)) hnot⟩
  | @failed err size got next hrunning =>
      cases herr : err.wouldBlock with
      | false =>
          have hgood := h.fail hrunning herr
          rw [herr] at hgood
          exact ⟨fun _ => hgood, fun hnot _ => hnot fun err' _ _ hev hblock _ => by
            obtain rfl : err = err' := by simpa using hev
            simp [herr] at hblock⟩
      | true =>
          obtain ⟨hidle, htaken, hsound⟩ := h.block hrunning herr rfl
          rw [herr] at hidle htaken hsound
          constructor
          · intro hunbroken
            obtain rfl := hunbroken err got _ rfl herr hrunning
            refine ⟨hsound, ?_⟩
            rw [hidle]
            exact .idle (by rwa [List.append_nil] at htaken)
          · intro hbroken hintact
            refine hbroken fun err' got' p hev _ hpeer => ?_
            obtain ⟨rfl, -⟩ : got = got' ∧ _ := by simpa using hrunning.symm.trans hpeer
            have hwhole := hintact.connected b hidle hb
            rw [htaken] at hwhole
            exact List.append_right_eq_self.mp hwhole

/-- The receiver can rely on what it gets, throughout a run, exactly when no `::recv` of
the run says that it would block inside a frame. -/
theorem alwaysIntact_iff (hb : b.isConnected = true)
    (hmsgs : ∀ data ∈ msgs, data.length < 2 ^ 32) {es : List Event}
    (hrun : (machine e b msgs).run (State.init b) es = some t) :
    (machine e b msgs).Always (Intact e msgs) (State.init b) es ↔
      (machine e b msgs).Guarded Unbroken (State.init b) es := by
  refine Machine.always_iff_guarded (I := fun s => Intact e msgs s → Inv e b msgs s)
    (fun s ev t hI hP hstep => ?_) (fun _ => inv_init) (inv_init.intact hb) hrun
  obtain ⟨hgood, hbad⟩ := (hI hP).step hb hmsgs hstep
  by_cases hunbroken : Unbroken s ev
  · have ht := hgood hunbroken
    exact ⟨fun _ => ht, fun _ => hunbroken, fun _ => ht.intact hb⟩
  · have ht := hbad hunbroken
    exact ⟨fun h => absurd h ht, fun h => absurd h ht, fun h => absurd h hunbroken⟩

/-- A run without failures breaks no stream. -/
theorem guarded_of_notMem {es : List Event} (hes : ∀ err, Event.recv (.failed err) ∉ es)
    (s : State) : (machine e b msgs).Guarded Unbroken s es := by
  induction es generalizing s with
  | nil => exact Machine.guarded_nil _ _
  | cons ev es ih =>
      refine ⟨unbroken_of_ne fun err hev => hes err (hev ▸ List.mem_cons_self), fun t _ => ?_⟩
      exact ih (fun err hmem => hes err (List.mem_cons_of_mem _ hmem)) t

/-- A peer that sends one message and dies inside the prefix of the next. -/
theorem alwaysIntact_iff_dies :
    let es : List Event :=
      [.put 12, .hangUp, .receiveDynamic 1, .recv (.done 8), .recv (.done 1),
        .receiveDynamic 1, .recv (.done 3), .recv (.done 0)]
    ∃ t, (machine .little ⟨4, true⟩ [[7], [8]]).run (State.init ⟨4, true⟩) es = some t ∧
      (machine .little ⟨4, true⟩ [[7], [8]]).Always (Intact .little [[7], [8]])
        (State.init ⟨4, true⟩) es ∧
      t.delivered = [[7]] ∧ t.failed = false := by
  intro es
  obtain ⟨t, hrun, hone, hfailed⟩ : ∃ t,
      (machine .little ⟨4, true⟩ [[7], [8]]).run (State.init ⟨4, true⟩) es = some t ∧
        t.delivered = [[7]] ∧ t.failed = false :=
    ⟨_, by with_unfolding_all rfl, by with_unfolding_all rfl, by with_unfolding_all rfl⟩
  refine ⟨t, hrun, (alwaysIntact_iff rfl (by simp) hrun).mpr ?_, hone, hfailed⟩
  exact guarded_of_notMem (by simp [es]) _

end System
end TornStream
end DocaStdexec
