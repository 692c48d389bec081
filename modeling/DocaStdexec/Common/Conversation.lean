import DocaStdexec.Common.Framing
import DocaStdexec.Lib.Handshake

/-!
# Conversations over `send_message` and `receive_message`

The free functions of the socket header are other names for the framed transfers.  Two
callers that take turns, one receiving whenever the other one sends, cannot block each
other over a connection of any capacity: `conversation_completes`.
-/

namespace DocaStdexec
namespace Tcp

open Lib Lib.Method

open TcpSocket

/-- `bytes_to_string`; a `std::string` is its bytes. -/
def bytesToString (bytes : List UInt8) : List UInt8 := bytes

/-- `receive_dynamic_string`. -/
def TcpSocket.receiveDynamicString (e : Endian) (maxSize : Nat) : SocketM (List UInt8) := do
  let bytes ← receiveDynamic e maxSize
  pure (bytesToString bytes)

/-- `send_message`, for bytes and for strings. -/
def sendMessage (e : Endian) (data : List UInt8) : SocketM PUnit := sendDynamic e data

/-- `receive_message`. -/
def receiveMessage (e : Endian) (maxSize : Nat) : SocketM (List UInt8) := receiveDynamic e maxSize

/-- `receive_message_string`. -/
def receiveMessageString (e : Endian) (maxSize : Nat) : SocketM (List UInt8) :=
  receiveDynamicString e maxSize

section Scripts

variable {s : TcpSocket}

theorem sendDynamic_follows (e : Endian) (hs : s.isConnected = true) (data : List UInt8) :
    Follows s.fd (fun r => r = (.ok ⟨⟩, s)) (Move.writes (frame e data))
      (sendDynamic e data s) := by
  have h := Follows.of_exchange (sendDynamic_writes e hs data)
  rwa [Move.reads, List.map_nil, List.append_nil] at h

theorem receiveDynamic_follows (e : Endian) (hs : s.isConnected = true) {data : List UInt8}
    (hlen : data.length < 2 ^ 32) {maxSize : Nat} (hmax : data.length ≤ maxSize) :
    Follows s.fd (fun r => r = (.ok data, s)) (Move.reads (frame e data))
      (receiveDynamic e maxSize s) :=
  Follows.of_exchange (receiveDynamic_reads e hs data hlen hmax)

/-- A method followed by another, both of which keep the socket and return. -/
theorem follows_bind {α β : Type} {m : SocketM α} {f : α → SocketM β} {l l' : List Move} {a : α}
    {R : Except SocketError β × TcpSocket → Prop}
    (hm : Follows s.fd (fun r => r = (.ok a, s)) l (m s)) (hf : Follows s.fd R l' (f a s)) :
    Follows s.fd R (l ++ l') ((m >>= f) s) := by
  rw [bind_run]
  refine hm.bind ?_
  rintro _ rfl
  exact hf

theorem receiveDynamicString_follows (e : Endian) (hs : s.isConnected = true)
    {data : List UInt8} (hlen : data.length < 2 ^ 32) {maxSize : Nat}
    (hmax : data.length ≤ maxSize) :
    Follows s.fd (fun r => r = (.ok data, s)) (Move.reads (frame e data))
      (receiveDynamicString e maxSize s) := by
  rw [← List.append_nil (Move.reads _)]
  exact follows_bind (receiveDynamic_follows e hs hlen hmax) (.ret rfl)

end Scripts

/-! ## Turns -/

/-- One turn: who sends, what, and whether it is received as a string. -/
structure Turn where
  speaker : Side
  message : List UInt8
  asString : Bool

/-- The calls of end `i`: it sends on its turns, receives on the other's, and returns
what it has received. -/
def converse (e : Endian) (maxSize : Nat) (i : Side) : List Turn → SocketM (List (List UInt8))
  | [] => pure []
  | turn :: rest =>
      if turn.speaker = i then do
        sendMessage e turn.message
        converse e maxSize i rest
      else do
        let received ←
          if turn.asString then receiveMessageString e maxSize else receiveMessage e maxSize
        let more ← converse e maxSize i rest
        pure (received :: more)

/-- What the other end says. -/
def heard (i : Side) (turns : List Turn) : List (List UInt8) :=
  (turns.filter fun turn => turn.speaker ≠ i).map Turn.message

/-- The bytes of a conversation as end `a` sees them. -/
def talk (e : Endian) (turns : List Turn) : List Move :=
  turns.flatMap fun turn =>
    if turn.speaker = .a then Move.writes (frame e turn.message)
    else Move.reads (frame e turn.message)

theorem mirror_writes (bytes : List UInt8) :
    (Move.writes bytes).map Move.mirror = Move.reads bytes := by
  simp [Move.writes, Move.reads, Function.comp_def, Move.mirror]

theorem mirror_reads (bytes : List UInt8) :
    (Move.reads bytes).map Move.mirror = Move.writes bytes := by
  simp [Move.writes, Move.reads, Function.comp_def, Move.mirror]

theorem turns_talk_cons (e : Endian) (i : Side) (turn : Turn) (rest : List Turn) :
    Duplex.turns (talk e (turn :: rest)) i =
      (if turn.speaker = i then Move.writes (frame e turn.message)
        else Move.reads (frame e turn.message)) ++ Duplex.turns (talk e rest) i := by
  obtain ⟨j, msg, asString⟩ := turn
  cases i <;> cases j <;> simp [Duplex.turns, talk, mirror_writes, mirror_reads]

theorem converse_follows (e : Endian) {s : TcpSocket} (hs : s.isConnected = true) {maxSize : Nat}
    (i : Side) {turns : List Turn}
    (hturns : ∀ turn ∈ turns, turn.message.length < 2 ^ 32 ∧ turn.message.length ≤ maxSize) :
    Follows s.fd (fun r => r = (.ok (heard i turns), s)) (Duplex.turns (talk e turns) i)
      (converse e maxSize i turns s) := by
  induction turns with
  | nil =>
      have hnil : Duplex.turns (talk e []) i = [] := by cases i <;> rfl
      rw [hnil]
      exact .ret rfl
  | cons turn rest ih =>
      obtain ⟨hlen, hmax⟩ := hturns _ List.mem_cons_self
      have hrest := ih fun turn hturn => hturns turn (List.mem_cons_of_mem _ hturn)
      rw [turns_talk_cons]
      by_cases hj : turn.speaker = i
      · have hheard : heard i (turn :: rest) = heard i rest := by simp [heard, hj]
        rw [if_pos hj, hheard, converse, if_pos hj]
        exact follows_bind (sendDynamic_follows e hs turn.message) hrest
      · have hheard : heard i (turn :: rest) = turn.message :: heard i rest := by
          simp [heard, hj]
        have hmore : Follows s.fd
            (fun r => r = (.ok (turn.message :: heard i rest), s)) (Duplex.turns (talk e rest) i)
            ((converse e maxSize i rest >>= fun more => pure (turn.message :: more)) s) := by
          rw [← List.append_nil (Duplex.turns _ _)]
          exact follows_bind hrest (.ret rfl)
        rw [if_neg hj, hheard, converse, if_neg hj]
        cases turn.asString with
        | true => exact follows_bind (receiveDynamicString_follows e hs hlen hmax) hmore
        | false => exact follows_bind (receiveDynamic_follows e hs hlen hmax) hmore

section Callers

variable (socket : Side → TcpSocket) (capacity : Side → Nat) (e : Endian) (maxSize : Nat)
  (turns : List Turn)

/-- Two callers that take turns over one connection. -/
def callers : Duplex (Except SocketError (List (List UInt8)) × TcpSocket) where
  fd i := (socket i).fd
  capacity := capacity
  program i := converse e maxSize i turns (socket i)

/-- How many bytes the frames of a conversation have. -/
def wireLength (turns : List Turn) : Nat :=
  (turns.map fun turn => 8 + turn.message.length).sum

theorem length_talk (e : Endian) (turns : List Turn) :
    (talk e turns).length = wireLength turns := by
  induction turns with
  | nil => rfl
  | cons turn rest ih =>
      have hcons : wireLength (turn :: rest) = 8 + turn.message.length + wireLength rest := by
        simp [wireLength]
      have hsplit : talk e (turn :: rest) =
          (if turn.speaker = .a then Move.writes (frame e turn.message)
            else Move.reads (frame e turn.message)) ++ talk e rest := by
        simp [talk]
      rw [hcons, hsplit, List.length_append, ih]
      split <;> simp

theorem callers_follow (socket : Side → TcpSocket) (capacity : Side → Nat) (e : Endian)
    (maxSize : Nat) (turns : List Turn) (hsocket : ∀ i, (socket i).isConnected = true)
    (hturns : ∀ turn ∈ turns, turn.message.length < 2 ^ 32 ∧ turn.message.length ≤ maxSize)
    (i : Side) :
    Follows ((callers socket capacity e maxSize turns).fd i)
      (fun r => r = (.ok (heard i turns), socket i))
      (Duplex.handshake (fun _ => []) (talk e turns) i)
      ((callers socket capacity e maxSize turns).program i) :=
  converse_follows e (hsocket i) i hturns

/-- Callers that take turns never block each other, however little the connection
buffers: every run ends with both returned, and each has received exactly what the
other one has sent, in order. -/
theorem conversation_completes (hsocket : ∀ i, (socket i).isConnected = true)
    (hcapacity : ∀ i, 1 ≤ capacity i)
    (hturns : ∀ turn ∈ turns, turn.message.length < 2 ^ 32 ∧ turn.message.length ≤ maxSize)
    {es : List Duplex.Event}
    {s : Duplex.State (Except SocketError (List (List UInt8)) × TcpSocket)}
    (hrun : (callers socket capacity e maxSize turns).machine.run
      (Duplex.State.init (callers socket capacity e maxSize turns)) es = some s) :
    es.length ≤ 2 * wireLength turns ∧
      (∀ i r, s.program i = .ret r → r = (.ok (heard i turns), socket i)) ∧
      (Duplex.Settled (callers socket capacity e maxSize turns) s →
        ∀ i, ∃ r, s.program i = .ret r) := by
  have hprogram := callers_follow socket capacity e maxSize turns hsocket hturns
  obtain ⟨n, hat⟩ := Duplex.at_of_reachable hprogram (Duplex.handshake_matching _ _) ⟨es, hrun⟩
  obtain ⟨hlen, hend⟩ := Duplex.handshake_outcome hcapacity hprogram hrun
  refine ⟨?_, fun i r hret => hat.of_ret hret, fun hsettled => (hend hsettled).mpr ?_⟩
  · rw [length_talk] at hlen
    simpa using hlen
  · intro hwide
    exact absurd (hwide .a) (Nat.not_lt_zero _)

/-- A question of one byte and an empty answer over buffers of one byte. -/
theorem conversation_completes_answer :
    ∃ es s, (callers (fun _ => ⟨3, true⟩) (fun _ => 1) .little 1
          [⟨.a, [7], false⟩, ⟨.b, [], true⟩]).machine.run
        (Duplex.State.init (callers (fun _ => ⟨3, true⟩) (fun _ => 1) .little 1
          [⟨.a, [7], false⟩, ⟨.b, [], true⟩])) es = some s ∧ es.length ≤ 34 ∧
      s.program .a = .ret (.ok [[]], ⟨3, true⟩) ∧
      s.program .b = .ret (.ok [[7]], ⟨3, true⟩) := by
  obtain ⟨es, s, hrun, hsettled⟩ := Duplex.exists_settled
    (callers_follow (fun _ => ⟨3, true⟩) (fun _ => 1) .little 1
      [⟨.a, [7], false⟩, ⟨.b, [], true⟩] (fun _ => rfl) (by decide))
    (Duplex.handshake_matching _ _) (Machine.reachable_init _)
  obtain ⟨hlen, hresult, hreturned⟩ := conversation_completes (fun _ => ⟨3, true⟩) (fun _ => 1)
    .little 1 [⟨.a, [7], false⟩, ⟨.b, [], true⟩] (fun _ => rfl) (fun _ => le_rfl) (by decide) hrun
  obtain ⟨a, ha⟩ := hreturned hsettled .a
  obtain ⟨b, hb⟩ := hreturned hsettled .b
  obtain rfl := hresult .a a ha
  obtain rfl := hresult .b b hb
  exact ⟨es, s, hrun, hlen, ha, hb⟩

end Callers
end Tcp
end DocaStdexec
