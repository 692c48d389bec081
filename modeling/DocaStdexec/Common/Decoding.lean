import DocaStdexec.Common.Framing
import DocaStdexec.Lib.Connection

/-!
# `receive_dynamic` on any stream

What the peer sends need not be a frame.  `decode` says what `receive_dynamic`
makes of a byte string after which the stream ends: the payload that the first
eight bytes announce, a message that is too large, or a stream that ended too
early.  `receiveDynamic_exec` is the refinement: a run of the code on any kernel
without faults gives exactly that.
-/

namespace DocaStdexec
namespace Decoding

open Lib
open Tcp Tcp.TcpSocket

/-- The length that the prefix of a stream announces. -/
def announced (e : Endian) (stream : List UInt8) : Nat :=
  e.htonl (e.ofBytes (stream.take prefixSize))

/-- The result of `receive_dynamic` and what it leaves of the stream. -/
def decode (e : Endian) (maxSize : Nat) (stream : List UInt8) :
    Except SocketError (List UInt8) × List UInt8 :=
  if stream.length < prefixSize then (.error .closedDuringReceiveAll, [])
  else if maxSize < announced e stream then
    (.error (.tooLarge (announced e stream) maxSize), stream.drop prefixSize)
  else if stream.length < prefixSize + announced e stream then
    (.error .closedDuringReceiveAll, [])
  else
    ((.ok ((stream.drop prefixSize).take (announced e stream))),
      stream.drop (prefixSize + announced e stream))

/-! ## What decoding gives -/

section Decode

variable {e : Endian} {maxSize : Nat} {stream : List UInt8}

theorem decode_of_closed (h : stream.length < prefixSize ∨
    announced e stream ≤ maxSize ∧ stream.length < prefixSize + announced e stream) :
    decode e maxSize stream = (.error .closedDuringReceiveAll, []) := by
  unfold decode
  rcases h with hlong | ⟨hmax, hpayload⟩
  · rw [if_pos hlong]
  · rw [if_neg (Nat.not_lt.mpr hmax), if_pos hpayload, ite_self]

theorem decode_of_tooLarge (hlong : prefixSize ≤ stream.length)
    (hmax : maxSize < announced e stream) :
    decode e maxSize stream =
      (.error (.tooLarge (announced e stream) maxSize), stream.drop prefixSize) := by
  rw [decode, if_neg (Nat.not_lt.mpr hlong), if_pos hmax]

theorem decode_of_payload (hmax : announced e stream ≤ maxSize)
    (hpayload : prefixSize + announced e stream ≤ stream.length) :
    decode e maxSize stream =
      (.ok ((stream.drop prefixSize).take (announced e stream)),
        stream.drop (prefixSize + announced e stream)) := by
  rw [decode, if_neg (by omega), if_neg (Nat.not_lt.mpr hmax), if_neg (Nat.not_lt.mpr hpayload)]

/-- A stream ends too early, announces too much, or holds its payload. -/
theorem decode_cases (e : Endian) (maxSize : Nat) (stream : List UInt8) :
    (stream.length < prefixSize ∨
      announced e stream ≤ maxSize ∧ stream.length < prefixSize + announced e stream) ∨
    (prefixSize ≤ stream.length ∧ maxSize < announced e stream) ∨
    (announced e stream ≤ maxSize ∧ prefixSize + announced e stream ≤ stream.length) := by
  omega

end Decode

/-! ## The code decodes -/

section Code

variable {κ : Kernel} {s : TcpSocket}

/-- A stream that ends before the buffer of `receive_all` is full: all of it is
taken, and the call marks the socket as not connected and throws. -/
theorem withLocal_receiveAll_ends (hκ : κ.Faultless) (hs : s.isConnected = true) (size : Nat)
    {incoming : List UInt8} (sent : List UInt8) (n : Nat) (hshort : incoming.length < size) :
    ∃ m, Program.exec κ s.fd true (Method.withLocal (List.replicate size 0) receiveAll s)
        ⟨n, incoming, sent⟩ =
      some ((.error .closedDuringReceiveAll, s.disconnected), ⟨m, [], sent⟩) := by
  obtain ⟨a, m, bytes, left, hrun, hsplit, hend⟩ :=
    (receiveAll_downloads hs (List.replicate size 0)).exec κ ⟨n, incoming, sent⟩
  have hle : bytes.length ≤ incoming.length := by
    rw [show incoming = bytes ++ left from hsplit, List.length_append]
    omega
  rw [List.length_replicate] at hend
  obtain ⟨-, x, ha, ⟨rfl, rfl⟩ | ⟨-, hfault⟩⟩ := hend.resolve_left fun hfull => by omega
  · obtain rfl : a = (_, (s.disconnected, _)) := ha
    refine ⟨m, ?_⟩
    rw [Method.withLocal, Program.exec_bind, hrun]
    rfl
  · exact absurd hκ hfault

/-- The state in which a call that gave `r` leaves its socket. -/
def after (s : TcpSocket) : Except SocketError (List UInt8) → TcpSocket
  | .error .closedDuringReceiveAll => s.disconnected
  | _ => s

/-- A stream that ends inside the prefix. -/
theorem receiveDynamic_ends_prefix (hκ : κ.Faultless) (hs : s.isConnected = true) (e : Endian)
    (maxSize : Nat) {stream : List UInt8} (sent : List UInt8) (n : Nat)
    (hshort : stream.length < prefixSize) :
    ∃ m, Program.exec κ s.fd true (receiveDynamic e maxSize s) ⟨n, stream, sent⟩ =
      some ((.error .closedDuringReceiveAll, s.disconnected), ⟨m, [], sent⟩) := by
  obtain ⟨m, hrun⟩ := withLocal_receiveAll_ends hκ hs prefixSize sent n hshort
  refine ⟨m, ?_⟩
  rw [receiveDynamic, Method.bind_run, Program.exec_bind, hrun]
  rfl

/-- A stream that ends inside a payload of an accepted length. -/
theorem receiveDynamic_ends_payload (hκ : κ.Faultless) (hs : s.isConnected = true) {e : Endian}
    {maxSize : Nat} {pre payload : List UInt8} (sent : List UInt8) (n : Nat)
    (hpre : pre.length = prefixSize) (hmax : e.htonl (e.ofBytes pre) ≤ maxSize)
    (hshort : payload.length < e.htonl (e.ofBytes pre)) :
    ∃ m, Program.exec κ s.fd true (receiveDynamic e maxSize s) ⟨n, pre ++ payload, sent⟩ =
      some ((.error .closedDuringReceiveAll, s.disconnected), ⟨m, [], sent⟩) := by
  have hread := withLocal_receiveAll_reads hs pre
  rw [hpre] at hread
  obtain ⟨_, m, hfirst, rfl⟩ := hread.exec hκ true n payload sent
  obtain ⟨m', hsecond⟩ :=
    withLocal_receiveAll_ends hκ hs (e.htonl (e.ofBytes pre)) (sent ++ []) m hshort
  refine ⟨m', ?_⟩
  rw [receiveDynamic, Method.bind_run, Program.exec_bind, hfirst, Option.bind_some]
  simp only
  rw [if_neg (Nat.not_lt.mpr hmax), if_neg (Nat.ne_zero_of_lt hshort), Method.bind_run,
    Program.exec_bind, hsecond, List.append_nil]
  rfl

/-- `receive_dynamic` decodes what is on the stream, however `::recv` cuts it. -/
theorem receiveDynamic_exec (hκ : κ.Faultless) (hs : s.isConnected = true) (e : Endian)
    (maxSize : Nat) (stream sent : List UInt8) (n : Nat) :
    ∃ m, Program.exec κ s.fd true (receiveDynamic e maxSize s) ⟨n, stream, sent⟩ =
      some (((decode e maxSize stream).1, after s (decode e maxSize stream).1),
        ⟨m, (decode e maxSize stream).2, sent⟩) := by
  have hstream : stream.take prefixSize ++ stream.drop prefixSize = stream :=
    List.take_append_drop _ _
  have hpre (h : prefixSize ≤ stream.length) : (stream.take prefixSize).length = prefixSize :=
    List.length_take_of_le h
  rcases decode_cases e maxSize stream with hclosed | ⟨hlong, hmax⟩ | ⟨hmax, hpayload⟩
  · rw [decode_of_closed hclosed]
    by_cases hlong : stream.length < prefixSize
    · exact receiveDynamic_ends_prefix hκ hs e maxSize sent n hlong
    · obtain ⟨hmax, hpayload⟩ := hclosed.resolve_left hlong
      have hshort : (stream.drop prefixSize).length < announced e stream := by
        rw [List.length_drop]
        omega
      have hrun := receiveDynamic_ends_payload hκ hs sent n (hpre (Nat.le_of_not_lt hlong)) hmax
        hshort
      rwa [hstream] at hrun
  · rw [decode_of_tooLarge hlong hmax]
    obtain ⟨_, m, hrun, rfl⟩ :=
      (receiveDynamic_rejects hs (hpre hlong) hmax).exec hκ true n (stream.drop prefixSize) sent
    rw [hstream, List.append_nil] at hrun
    exact ⟨m, hrun⟩
  · rw [decode_of_payload hmax hpayload]
    have hsize : announced e stream =
        ((stream.drop prefixSize).take (announced e stream)).length := by
      rw [List.length_take_of_le]
      rw [List.length_drop]
      omega
    have hread := receiveDynamic_accepts hs (hpre (by omega)) hsize (hsize ▸ hmax)
    obtain ⟨_, m, hrun, rfl⟩ := hread.exec hκ true n
      (stream.drop (prefixSize + announced e stream)) sent
    rw [List.append_assoc, ← List.drop_drop, List.take_append_drop, hstream, List.append_nil,
      List.drop_drop] at hrun
    exact ⟨m, hrun⟩

/-- `receive_dynamic` depends only on the bytes: however two kernels cut a stream
that ends, it ends with the same result and leaves the same bytes.  A payload is
what follows the prefix, a message that is too large costs its prefix, and the
end of the stream is reported when it comes inside the prefix or the payload. -/
theorem receiveDynamic_same_for_every_cut {κ' : Kernel} (hκ : κ.Faultless) (hκ' : κ'.Faultless)
    (hs : s.isConnected = true) (e : Endian) (maxSize : Nat) (stream sent sent' : List UInt8)
    (n n' : Nat) :
    ∃ r t left m m',
      Program.exec κ s.fd true (receiveDynamic e maxSize s) ⟨n, stream, sent⟩ =
        some ((r, t), ⟨m, left, sent⟩) ∧
      Program.exec κ' s.fd true (receiveDynamic e maxSize s) ⟨n', stream, sent'⟩ =
        some ((r, t), ⟨m', left, sent'⟩) ∧
      (∀ payload, r = .ok payload →
        prefixSize ≤ stream.length ∧ stream = stream.take prefixSize ++ payload ++ left ∧
          payload.length = announced e stream ∧ payload.length ≤ maxSize) ∧
      (∀ err, r = .error err → err = .closedDuringReceiveAll ∨
        err = .tooLarge (announced e stream) maxSize ∧ prefixSize ≤ stream.length ∧
          maxSize < announced e stream ∧ left = stream.drop prefixSize) ∧
      (r = .error .closedDuringReceiveAll ↔ stream.length < prefixSize ∨
        announced e stream ≤ maxSize ∧ stream.length < prefixSize + announced e stream) := by
  obtain ⟨m, hrun⟩ := receiveDynamic_exec hκ hs e maxSize stream sent n
  obtain ⟨m', hrun'⟩ := receiveDynamic_exec hκ' hs e maxSize stream sent' n'
  refine ⟨_, _, _, m, m', hrun, hrun', ?_⟩
  rcases decode_cases e maxSize stream with hclosed | ⟨hlong, hmax⟩ | ⟨hmax, hpayload⟩
  · rw [decode_of_closed hclosed]
    refine ⟨by simp, fun err herr => .inl ?_, by simpa using hclosed⟩
    simpa using herr.symm
  · rw [decode_of_tooLarge hlong hmax]
    refine ⟨by simp, fun err herr => .inr ⟨?_, hlong, hmax, rfl⟩, ?_⟩
    · simpa using herr.symm
    · simp only [Except.error.injEq, reduceCtorEq, false_iff]
      omega
  · rw [decode_of_payload hmax hpayload]
    refine ⟨fun payload hok => ?_, by simp, ?_⟩
    · obtain rfl := Except.ok.inj hok
      have hlen : ((stream.drop prefixSize).take (announced e stream)).length =
          announced e stream := by
        rw [List.length_take_of_le]
        rw [List.length_drop]
        omega
      refine ⟨by omega, ?_, hlen, hlen.le.trans hmax⟩
      rw [List.append_assoc, ← List.drop_drop, List.take_append_drop, List.take_append_drop]
    · simp only [reduceCtorEq, false_iff]
      omega

/-- A frame and the start of the next one, taken at once and byte by byte. -/
theorem receiveDynamic_same_for_every_cut_frame :
    ∃ t m m',
      Program.exec .whole 3 true (receiveDynamic .little 5 ⟨3, true⟩)
        ⟨0, [0, 0, 0, 2, 0, 0, 0, 0, 7, 8, 9], []⟩ = some ((.ok [7, 8], t), ⟨m, [9], []⟩) ∧
      Program.exec .bytewise 3 true (receiveDynamic .little 5 ⟨3, true⟩)
        ⟨0, [0, 0, 0, 2, 0, 0, 0, 0, 7, 8, 9], []⟩ = some ((.ok [7, 8], t), ⟨m', [9], []⟩) := by
  obtain ⟨r, t, left, m, m', hrun, hrun', hok, herror, hclosed⟩ :=
    receiveDynamic_same_for_every_cut Kernel.whole_faultless Kernel.bytewise_faultless
      (s := ⟨3, true⟩) rfl .little 5 [0, 0, 0, 2, 0, 0, 0, 0, 7, 8, 9] [] [] 0 0
  have hsize : announced .little [0, 0, 0, 2, 0, 0, 0, 0, 7, 8, 9] = 2 := by decide
  rw [hsize] at hok herror hclosed
  cases r with
  | error err =>
      rcases herror err rfl with rfl | ⟨-, -, hmax, -⟩
      · exact absurd (hclosed.mp rfl) (by decide)
      · omega
  | ok payload =>
      obtain ⟨-, hstream, hlen, -⟩ := hok payload rfl
      obtain ⟨a, b, rfl⟩ := List.length_eq_two.mp hlen
      obtain ⟨rfl, rfl, rfl⟩ : 7 = a ∧ 8 = b ∧ [9] = left := by
        simpa [prefixSize] using hstream
      exact ⟨t, m, m', hrun, hrun'⟩

end Code
end Decoding
end DocaStdexec
