import DocaStdexec.Common.Framing
import DocaStdexec.Lib.Machine

/-!
# A stream of framed messages

Two hosts at the ends of a reliable byte stream: one gives the messages of a
list to `send_dynamic`, the other calls `receive_dynamic` as often as it wants.
A scheduler interleaves their calls, and the stream decides how many bytes each
`::send` accepts and each `::recv` returns.

The invariant is one equation: what is on the stream, followed by what the
sender has still to write, is what the receiver has still to read.
-/

namespace DocaStdexec
namespace MessageStream

open Lib
open Tcp Tcp.TcpSocket

/-- One end: its socket between two calls, or the rest of the running call. -/
inductive Peer (α : Type)
  | idle (socket : TcpSocket)
  | running (p : Program (Except SocketError α × TcpSocket))

/-- How many calls of this end have not returned. -/
def Peer.pending {α : Type} : Peer α → Nat
  | idle _ => 0
  | running _ => 1

structure State where
  sender : Peer PUnit
  /-- What each `send_dynamic` that returned gave, oldest first. -/
  sent : List (Except SocketError PUnit)
  stream : List UInt8
  receiver : Peer (List UInt8)
  /-- What each `receive_dynamic` that returned gave, oldest first. -/
  received : List (Except SocketError (List UInt8))

/-- How many messages have been given to `send_dynamic`. -/
def State.given (s : State) : Nat := s.sent.length + s.sender.pending

/-- How many times `receive_dynamic` has been called. -/
def State.asked (s : State) : Nat := s.received.length + s.receiver.pending

inductive Event
  /-- The sender gives its next message to `send_dynamic`. -/
  | sendDynamic
  /-- Its `::send` accepts `k` bytes. -/
  | send (k : Nat)
  | sendReturn
  | receiveDynamic (maxSize : Nat)
  /-- The receiver's `::recv` takes `k` bytes. -/
  | recv (k : Nat)
  | receiveReturn
  deriving DecidableEq

section System

variable (e : Endian) (a b : TcpSocket) (msgs : List (List UInt8))

def State.init : State := ⟨.idle a, [], [], .idle b, []⟩

/-- `max_size` is no smaller than the next message. -/
def Allowed (s : State) (maxSize : Nat) : Bool :=
  (msgs[s.received.length]?).all fun data => data.length ≤ maxSize

/-- One step of one end.  The stream connects `a.fd` to `b.fd`. -/
def step (s : State) : Event → Option State
  | .sendDynamic =>
      match s.sender, msgs[s.sent.length]? with
      | .idle socket, some data => some { s with sender := .running (sendDynamic e data socket) }
      | _, _ => none
  | .send k =>
      match s.sender with
      | .running p =>
          (p.accept a.fd k).map fun (bytes, q) =>
            { s with sender := .running q, stream := s.stream ++ bytes }
      | .idle _ => none
  | .sendReturn =>
      match s.sender with
      | .running (.ret (r, socket)) => some { s with sender := .idle socket, sent := s.sent ++ [r] }
      | _ => none
  | .receiveDynamic maxSize =>
      match s.receiver with
      | .idle socket =>
          if Allowed msgs s maxSize then
            some { s with receiver := .running (receiveDynamic e maxSize socket) }
          else none
      | .running _ => none
  | .recv k =>
      match s.receiver with
      | .running p =>
          (p.deliver b.fd k s.stream).map fun q =>
            { s with receiver := .running q, stream := s.stream.drop k }
      | .idle _ => none
  | .receiveReturn =>
      match s.receiver with
      | .running (.ret (r, socket)) =>
          some { s with receiver := .idle socket, received := s.received ++ [r] }
      | _ => none

def machine : Machine State Event := ⟨State.init a b, step e a b msgs⟩

/-- Everything a step can do. -/
inductive Effect (s : State) : Event → State → Prop
  | sendDynamic {socket : TcpSocket} {data : List UInt8} (hidle : s.sender = .idle socket)
      (hnext : msgs[s.sent.length]? = some data) :
      Effect s .sendDynamic { s with sender := .running (sendDynamic e data socket) }
  | send {k : Nat} {p q : Program (Except SocketError PUnit × TcpSocket)} {bytes : List UInt8}
      (hrunning : s.sender = .running p) (haccept : p.accept a.fd k = some (bytes, q)) :
      Effect s (.send k) { s with sender := .running q, stream := s.stream ++ bytes }
  | sendReturn {r : Except SocketError PUnit} {socket : TcpSocket}
      (hret : s.sender = .running (.ret (r, socket))) :
      Effect s .sendReturn { s with sender := .idle socket, sent := s.sent ++ [r] }
  | receiveDynamic {maxSize : Nat} {socket : TcpSocket} (hidle : s.receiver = .idle socket)
      (hmax : ∀ data, msgs[s.received.length]? = some data → data.length ≤ maxSize) :
      Effect s (.receiveDynamic maxSize)
        { s with receiver := .running (receiveDynamic e maxSize socket) }
  | recv {k : Nat} {p q : Program (Except SocketError (List UInt8) × TcpSocket)}
      (hrunning : s.receiver = .running p) (hdeliver : p.deliver b.fd k s.stream = some q) :
      Effect s (.recv k) { s with receiver := .running q, stream := s.stream.drop k }
  | receiveReturn {r : Except SocketError (List UInt8)} {socket : TcpSocket}
      (hret : s.receiver = .running (.ret (r, socket))) :
      Effect s .receiveReturn { s with receiver := .idle socket, received := s.received ++ [r] }

theorem step_effect {s t : State} {ev : Event} (hstep : step e a b msgs s ev = some t) :
    Effect e a b msgs s ev t := by
  cases ev with
  | sendDynamic =>
      simp only [step] at hstep
      split at hstep
      · next hidle hnext => exact Option.some.inj hstep ▸ .sendDynamic hidle hnext
      · simp at hstep
  | send k =>
      simp only [step] at hstep
      split at hstep
      · next hrunning =>
          obtain ⟨⟨bytes, q⟩, haccept, rfl⟩ := Option.map_eq_some_iff.mp hstep
          exact .send hrunning haccept
      · simp at hstep
  | sendReturn =>
      simp only [step] at hstep
      split at hstep
      · next hret => exact Option.some.inj hstep ▸ .sendReturn hret
      · simp at hstep
  | receiveDynamic maxSize =>
      simp only [step] at hstep
      split at hstep
      · next hidle =>
          obtain ⟨hallowed, hsome⟩ := Option.ite_none_right_eq_some.mp hstep
          refine Option.some.inj hsome ▸ .receiveDynamic hidle fun data hdata => ?_
          simpa [Allowed, hdata] using hallowed
      · simp at hstep
  | recv k =>
      simp only [step] at hstep
      split at hstep
      · next hrunning =>
          obtain ⟨q, hdeliver, rfl⟩ := Option.map_eq_some_iff.mp hstep
          exact .recv hrunning hdeliver
      · simp at hstep
  | receiveReturn =>
      simp only [step] at hstep
      split at hstep
      · next hret => exact Option.some.inj hstep ▸ .receiveReturn hret
      · simp at hstep

/-- What the messages from the `n`th on look like on the wire. -/
def wireFrom (n : Nat) : List UInt8 := (msgs.drop n).flatMap (frame e)

theorem wireFrom_of_getElem? {n : Nat} {data : List UInt8} (h : msgs[n]? = some data) :
    wireFrom e msgs n = frame e data ++ wireFrom e msgs (n + 1) := by
  obtain ⟨hn, rfl⟩ := List.getElem?_eq_some_iff.mp h
  rw [wireFrom, List.drop_eq_getElem_cons hn, List.flatMap_cons, wireFrom]

/-- After the last message there is nothing more. -/
theorem wireFrom_of_getElem?_none {n m : Nat} (h : msgs[n]? = none) (hm : n ≤ m) :
    wireFrom e msgs m = [] := by
  have hend := (List.getElem?_eq_none_iff.mp h).trans hm
  rw [wireFrom, List.drop_eq_nil_of_le hend, List.flatMap_nil]

/-- Where the sender stands, and what its call has still to write. -/
inductive SenderAt : Peer PUnit → List UInt8 → Prop
  | idle : SenderAt (.idle a) []
  | writing {out : List UInt8} {p : Program (Except SocketError PUnit × TcpSocket)}
      (h : Exchange a.fd (fun r => r = (.ok ⟨⟩, a)) out [] p) : SenderAt (.running p) out

/-- Where the receiver stands, and what its call has still to read; `next` is
the message that its call is for. -/
inductive ReceiverAt (next : Option (List UInt8)) : Peer (List UInt8) → List UInt8 → Prop
  | idle : ReceiverAt next (.idle b) []
  | reading {data inn : List UInt8} {p : Program (Except SocketError (List UInt8) × TcpSocket)}
      (hnext : next = some data) (hsuffix : inn <:+ frame e data)
      (h : Exchange b.fd (fun r => r = (.ok data, b)) [] inn p) :
      ReceiverAt next (.running p) inn
  /-- The call after the last message blocks in its first `::recv`. -/
  | waiting {size : Nat}
      {rest : Transfer (List UInt8) → Program (Except SocketError (List UInt8) × TcpSocket)}
      (hnext : next = none) : ReceiverAt next (.running (.call (.recv b.fd size) rest)) []

/-- The invariant of the two ends. -/
structure Inv (s : State) (out inn : List UInt8) : Prop where
  sender : SenderAt a s.sender out
  receiver : ReceiverAt e b msgs[s.received.length]? s.receiver inn
  /-- Nothing is lost, duplicated or reordered. -/
  law : s.stream ++ (out ++ wireFrom e msgs s.given) = inn ++ wireFrom e msgs s.asked
  received : s.received = (msgs.take s.received.length).map .ok

variable {e a b msgs}

theorem inv_init : Inv e a b msgs (State.init a b) [] [] :=
  ⟨.idle, .idle, by simp [State.init, State.given, State.asked, Peer.pending], by simp [State.init]⟩

theorem Inv.step (ha : a.isConnected = true) (hb : b.isConnected = true)
    (hmsgs : ∀ data ∈ msgs, data.length < 2 ^ 32) {s t : State} {out inn : List UInt8} {ev : Event}
    (h : Inv e a b msgs s out inn) (hstep : step e a b msgs s ev = some t) :
    ∃ out' inn', Inv e a b msgs t out' inn' := by
  obtain ⟨hsender, hreceiver, hlaw, hreceived⟩ := h
  cases step_effect e a b msgs hstep with
  | @sendDynamic socket data hidle hnext =>
      rw [hidle] at hsender
      cases hsender
      refine ⟨frame e data, inn, .writing (sendDynamic_writes e ha data), hreceiver, ?_, hreceived⟩
      simpa [State.given, State.asked, Peer.pending, hidle, wireFrom_of_getElem? e msgs hnext]
        using hlaw
  | @send k p q bytes hrunning haccept =>
      rw [hrunning] at hsender
      cases hsender with
      | writing hexchange =>
          obtain ⟨-, out', rfl, hrest⟩ := hexchange.of_accept haccept
          refine ⟨out', inn, .writing hrest, hreceiver, ?_, hreceived⟩
          simpa [State.given, State.asked, Peer.pending, hrunning] using hlaw
  | @sendReturn r socket hret =>
      rw [hret] at hsender
      cases hsender with
      | writing hexchange =>
          obtain ⟨rfl, -, hresult⟩ := hexchange.of_ret
          obtain ⟨rfl, rfl⟩ := Prod.mk.inj hresult
          refine ⟨[], inn, .idle, hreceiver, ?_, hreceived⟩
          simpa [State.given, State.asked, Peer.pending, hret] using hlaw
  | @receiveDynamic maxSize socket hidle hmax =>
      rw [hidle] at hreceiver
      cases hreceiver
      cases hnext : msgs[s.received.length]? with
      | none =>
          obtain ⟨rest, hfirst⟩ := receiveDynamic_waits e hb maxSize
          refine ⟨out, [], hsender, hfirst ▸ .waiting hnext, ?_, hreceived⟩
          simpa [State.given, State.asked, Peer.pending, hidle,
            wireFrom_of_getElem?_none e msgs hnext le_rfl,
            wireFrom_of_getElem?_none e msgs hnext (Nat.le_succ _)] using hlaw
      | some data =>
          have hlen := hmsgs data (List.mem_of_getElem? hnext)
          refine ⟨out, frame e data, hsender, .reading hnext List.suffix_rfl
            (receiveDynamic_reads e hb data hlen (hmax data hnext)), ?_, hreceived⟩
          simpa [State.given, State.asked, Peer.pending, hidle, wireFrom_of_getElem? e msgs hnext]
            using hlaw
  | @recv k p q hrunning hdeliver =>
      rw [hrunning] at hreceiver
      cases hreceiver with
      | @reading data _ _ hnext hsuffix hexchange =>
          obtain ⟨-, -, hinn, hstream, htake, hrest⟩ := hexchange.of_deliver hdeliver hlaw
          refine ⟨out, inn.drop k, hsender,
            .reading hnext ((List.drop_suffix k inn).trans hsuffix) hrest, ?_, hreceived⟩
          -- the stream and what is still to be read lose the same `k` bytes
          have hdrop := congrArg (List.drop k) hlaw
          rw [List.drop_append_of_le_length hstream, List.drop_append_of_le_length hinn] at hdrop
          simpa [State.given, State.asked, Peer.pending, hrunning] using hdrop
      | waiting hnext =>
          -- after the last message nothing is on the stream
          obtain ⟨_, _, -, hk, -, hstream, -⟩ := Program.deliver_eq_some hdeliver
          have hempty : s.stream = [] := by
            simp only [State.asked, Peer.pending, hrunning,
              wireFrom_of_getElem?_none e msgs hnext (Nat.le_succ _), List.append_nil,
              List.append_eq_nil_iff] at hlaw
            exact hlaw.1
          simp only [hempty, List.length_nil] at hstream
          omega
  | @receiveReturn r socket hret =>
      rw [hret] at hreceiver
      cases hreceiver with
      | @reading data _ _ hnext hsuffix hexchange =>
          obtain ⟨-, rfl, hresult⟩ := hexchange.of_ret
          obtain ⟨rfl, rfl⟩ := Prod.mk.inj hresult
          refine ⟨out, [], hsender, .idle, ?_, ?_⟩
          · simpa [State.given, State.asked, Peer.pending, hret] using hlaw
          · obtain ⟨hn, rfl⟩ := List.getElem?_eq_some_iff.mp hnext
            simp only [List.length_append, List.length_singleton]
            rw [← List.take_concat_get' _ _ hn, List.map_append, ← hreceived]
            rfl

variable (e msgs) in
theorem length_wireFrom_antitone : Antitone fun n => (wireFrom e msgs n).length := by
  refine antitone_nat_of_succ_le fun n => ?_
  cases hn : msgs[n]? with
  | some data => simp [wireFrom_of_getElem? e msgs hn]
  | none => simp [wireFrom_of_getElem?_none e msgs hn (Nat.le_succ n)]

/-- What the receiver has still to read belongs to the messages that it has not
received. -/
theorem Inv.length_unread {s : State} {out inn : List UInt8} (h : Inv e a b msgs s out inn) :
    (inn ++ wireFrom e msgs s.asked).length ≤ (wireFrom e msgs s.received.length).length := by
  obtain ⟨-, hat, -, -⟩ := h
  cases hreceiver : s.receiver with
  | idle socket =>
      rw [hreceiver] at hat
      cases hat
      simp [State.asked, hreceiver, Peer.pending]
  | running p =>
      rw [hreceiver] at hat
      simp only [State.asked, hreceiver, Peer.pending]
      cases hat with
      | @reading data _ _ hnext hsuffix _ =>
          rw [wireFrom_of_getElem? e msgs hnext]
          simpa using hsuffix.length_le
      | waiting hnext =>
          simpa using length_wireFrom_antitone e msgs (Nat.le_succ _)

/-- What is on the stream belongs to the messages that were given to the sender
and not received. -/
theorem Inv.length_stream {s : State} {out inn : List UInt8} (h : Inv e a b msgs s out inn) :
    s.stream.length + (wireFrom e msgs s.given).length ≤
      (wireFrom e msgs s.received.length).length := by
  have hlaw := congrArg List.length h.law
  have hunread := h.length_unread
  simp only [List.length_append] at hlaw hunread
  omega

/-- No message is received before it was given to the sender. -/
theorem Inv.received_le_given {s : State} {out inn : List UInt8} (h : Inv e a b msgs s out inn) :
    s.received.length ≤ s.given := by
  by_contra hlater
  have hbound : s.received.length ≤ msgs.length := by
    have hlen := congrArg List.length h.received
    simp only [List.length_map, List.length_take] at hlen
    omega
  have hlt : s.given < msgs.length := by omega
  have hgiven := List.getElem?_eq_getElem hlt
  have hstream := h.length_stream
  rw [wireFrom_of_getElem? e msgs hgiven, List.length_append, length_frame] at hstream
  have hle := length_wireFrom_antitone e msgs (Nat.succ_le_of_lt (not_le.mp hlater))
  simp only [Nat.succ_eq_add_one] at hle
  omega

theorem Inv.stream_eq_nil {s : State} {out inn : List UInt8} (h : Inv e a b msgs s out inn)
    (hall : s.received.length = s.given) : s.stream = [] := by
  have hstream := h.length_stream
  rw [hall] at hstream
  exact List.length_eq_zero_iff.mp (by omega)

/-- The messages arrive intact and in order under any fragmentation, and the
stream is empty when every message given to the sender has been received. -/
theorem messages_intact (ha : a.isConnected = true) (hb : b.isConnected = true)
    (hmsgs : ∀ data ∈ msgs, data.length < 2 ^ 32) {s : State}
    (hs : (machine e a b msgs).Reachable s) :
    s.received = (msgs.take s.received.length).map .ok ∧ s.received.length ≤ s.given ∧
      (s.received.length = s.given → s.stream = []) := by
  obtain ⟨out, inn, h⟩ : ∃ out inn, Inv e a b msgs s out inn :=
    hs.invariant (I := fun s => ∃ out inn, Inv e a b msgs s out inn) ⟨[], [], inv_init⟩
      fun _ _ _ ⟨_, _, h⟩ hstep => h.step ha hb hmsgs hstep
  exact ⟨h.received, h.received_le_given, h.stream_eq_nil⟩

/-- A payload of one byte and an empty one, with the first prefix in transit in
two pieces. -/
theorem messages_intact_fragmented :
    ∃ s, (machine .little ⟨3, true⟩ ⟨4, true⟩ [[7], []]).Reachable s ∧
      s.received = [.ok [7], .ok []] ∧ s.stream = [] := by
  obtain ⟨s, hrun, hreceived, hgiven⟩ :
      ∃ s, (machine .little ⟨3, true⟩ ⟨4, true⟩ [[7], []]).run (State.init ⟨3, true⟩ ⟨4, true⟩)
        [.sendDynamic, .send 3, .receiveDynamic 1, .recv 2, .send 5, .send 1, .recv 6, .sendReturn,
          .sendDynamic, .send 8, .recv 1, .receiveReturn, .receiveDynamic 0, .recv 8,
          .receiveReturn] = some s ∧ s.received.length = 2 ∧ s.given = 2 :=
    ⟨_, by with_unfolding_all rfl, by with_unfolding_all rfl, by with_unfolding_all rfl⟩
  have h := messages_intact rfl rfl (by simp) ⟨_, hrun⟩
  rw [hreceived] at h
  exact ⟨s, ⟨_, hrun⟩, h.1, h.2.2 hgiven.symm⟩

end System
end MessageStream
end DocaStdexec
