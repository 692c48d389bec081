import DocaStdexec.Common.TcpSocket
import DocaStdexec.Lib.Upload
import DocaStdexec.Lib.Download

/-!
# What the framed transfers put on and take off the stream

`frame e data` is what `send_dynamic` sends for a payload.  The theorems below
specify each transfer method by the exchange rule of `Lib.Socket`: on a
connected socket whose transfers succeed, `send_dynamic` writes exactly its
frame and `receive_dynamic` reads exactly one frame and returns its payload,
however the transfers are cut.
-/

namespace DocaStdexec
namespace Tcp

open Lib Lib.Method

/-- The length prefix and the payload. -/
def frame (e : Endian) (data : List UInt8) : List UInt8 :=
  e.toBytes TcpSocket.prefixSize (e.htonl data.length) ++ data

@[simp] theorem length_frame (e : Endian) (data : List UInt8) :
    (frame e data).length = 8 + data.length := by
  simp [frame, TcpSocket.prefixSize]

theorem frame_ne_nil (e : Endian) (data : List UInt8) : frame e data ≠ [] := by
  apply List.ne_nil_of_length_pos
  rw [length_frame]
  omega

/-- The length that a receiver of the same byte order reads from a prefix is the
payload's length modulo 2^32. -/
theorem htonl_ofBytes_toBytes (e : Endian) (n : Nat) :
    e.htonl (e.ofBytes (e.toBytes TcpSocket.prefixSize (e.htonl n))) = n % 2 ^ 32 := by
  have hsmall : e.htonl n % 256 ^ TcpSocket.prefixSize = e.htonl n := by
    exact Nat.mod_eq_of_lt ((e.htonl_lt n).trans (by decide))
  rw [Endian.ofBytes_toBytes, hsmall, Endian.htonl_htonl]

namespace TcpSocket

variable {s : TcpSocket}

/-- How `send` goes on after its `::send`. -/
def sendNext (s : TcpSocket) : Transfer Nat → Program (Except SocketError Nat × TcpSocket)
  | .done sent => .ret (.ok sent, s)
  | .failed err =>
      if err.wouldBlock then .ret (.ok 0, s) else .ret (.error .sendFailed, s.disconnected)

/-- `send` is one `::send` on a connected socket and throws on any other. -/
theorem send_run (s : TcpSocket) (data : List UInt8) :
    send data s =
      if s.isConnected then .call (.send s.fd data) (sendNext s)
      else .ret (.error .notConnected, s) := by
  cases hs : s.isConnected with
  | false => simp [send, bind_run, hs]
  | true =>
      simp only [send, bind_run, self_run, Resumption.ret_bind, hs, Bool.not_true,
        Bool.false_eq_true, if_false, if_true, sys, Resumption.call_bind]
      congr 1
      funext r
      cases r with
      | done sent => rfl
      | failed err =>
          cases hblock : err.wouldBlock with
          | true => simp [sendNext, hblock]
          | false =>
              simp only [sendNext, hblock, Bool.false_eq_true, if_false]
              rfl

/-- How `receive` goes on after its `::recv` into the buffer at `offset`. -/
def receiveNext (s : TcpSocket) (buffer : List UInt8) (offset : Nat) :
    Transfer (List UInt8) → Program (Except SocketError Nat × (TcpSocket × List UInt8))
  | .failed err =>
      if err.wouldBlock then .ret (.ok 0, (s, buffer))
      else .ret (.error .receiveFailed, (s.disconnected, buffer))
  | .done bytes =>
      if bytes.length = 0 then .ret (.ok 0, (s.disconnected, buffer))
      else .ret (.ok bytes.length,
        (s, buffer.take offset ++ bytes ++ buffer.drop (offset + bytes.length)))

/-- `receive` is one `::recv` on a connected socket and throws on any other. -/
theorem receive_run (s : TcpSocket) (buffer : List UInt8) (offset : Nat) :
    receive offset (s, buffer) =
      if s.isConnected then
        .call (.recv s.fd (buffer.length - offset)) (receiveNext s buffer offset)
      else .ret (.error .notConnected, (s, buffer)) := by
  cases hs : s.isConnected with
  | false => simp [receive, bind_run, hs]
  | true =>
      simp only [receive, bind_run, self_run, Resumption.ret_bind, hs, Bool.not_true,
        Bool.false_eq_true, if_false, if_true, sys, Resumption.call_bind]
      congr 1
      funext r
      cases r with
      | failed err =>
          cases hblock : err.wouldBlock with
          | true => simp [receiveNext, hblock]
          | false =>
              simp only [receiveNext, hblock, Bool.false_eq_true, if_false]
              rfl
      | done bytes =>
          by_cases hbytes : bytes.length = 0 <;> simp only [receiveNext, hbytes] <;> rfl

/-- How the loop of `send_all` goes on after its `::send`. -/
def sendAllNext (s : TcpSocket) (data : List UInt8) (totalSent : Nat) :
    Transfer Nat → Program (Except SocketError PUnit × TcpSocket)
  | .done sent =>
      if sent = 0 then .ret (.error .closedDuringSendAll, s)
      else sendAllFrom data (totalSent + sent) s
  | .failed err =>
      if err.wouldBlock then .ret (.error .closedDuringSendAll, s)
      else .ret (.error .sendFailed, s.disconnected)

/-- One round of the loop of `send_all`. -/
theorem sendAllFrom_step (hs : s.isConnected = true) {data : List UInt8} {totalSent : Nat}
    (hmore : totalSent < data.length) :
    sendAllFrom data totalSent s =
      .call (.send s.fd (data.drop totalSent)) (sendAllNext s data totalSent) := by
  rw [sendAllFrom, if_pos hmore, bind_run, send_run, if_pos hs, Resumption.call_bind]
  congr 1
  funext r
  cases r with
  | done sent =>
      simp only [sendNext, sendAllNext, Resumption.ret_bind]
      by_cases hsent : sent = 0
      · simp [hsent]
      · simp [hsent]
  | failed err =>
      cases hblock : err.wouldBlock <;> simp [sendNext, sendAllNext, hblock]

/-- Where a halt leaves the socket, and what is thrown: only a failure
disconnects. -/
def Halted (s : TcpSocket) : Halt → Except SocketError PUnit × TcpSocket → Prop
  | .stalled, r => r = (.error .closedDuringSendAll, s)
  | .failed, r => r = (.error .sendFailed, s.disconnected)

/-- A transfer that moved nothing ends `send_all`. -/
theorem sendAllNext_halt (s : TcpSocket) (data : List UInt8) (totalSent : Nat)
    {r : Transfer Nat} {h : Halt} (hr : r.halt = some h) :
    ∃ x, sendAllNext s data totalSent r = .ret x ∧ Halted s h x := by
  cases r with
  | done k =>
      cases k with
      | zero =>
          obtain rfl : Halt.stalled = h := Option.some.inj hr
          exact ⟨(.error .closedDuringSendAll, s), by simp [sendAllNext], rfl⟩
      | succ k => simp [Transfer.halt] at hr
  | failed err =>
      simp only [Transfer.halt, Option.some.injEq] at hr
      cases hblock : err.wouldBlock with
      | true =>
          rw [if_pos hblock] at hr
          subst hr
          exact ⟨(.error .closedDuringSendAll, s), by rw [sendAllNext, if_pos hblock], rfl⟩
      | false =>
          rw [if_neg (by simp [hblock])] at hr
          subst hr
          exact ⟨(.error .sendFailed, s.disconnected), by simp [sendAllNext, hblock], rfl⟩

/-- `send_all` writes its data until a transfer moves nothing. -/
theorem sendAllFrom_uploads (hs : s.isConnected = true) (data : List UInt8) (totalSent : Nat) :
    Upload s.fd (fun r => r = (.ok ⟨⟩, s)) (Halted s) (data.drop totalSent)
      (sendAllFrom data totalSent s) := by
  -- induction on the number of bytes that are still to be sent
  induction hleft : data.length - totalSent using Nat.strong_induction_on
    generalizing totalSent with
  | _ left ih =>
      by_cases hmore : totalSent < data.length
      · rw [sendAllFrom_step hs hmore]
        refine .send (by simpa using hmore) List.prefix_rfl (fun k hk hlen => ?_)
          fun r h hr => sendAllNext_halt s data totalSent hr
        rw [List.length_drop] at hlen
        simp only [sendAllNext, if_neg (Nat.one_le_iff_ne_zero.mp hk), List.drop_drop]
        exact ih (data.length - (totalSent + k)) (by omega) (totalSent + k) rfl
      · rw [sendAllFrom, if_neg hmore, List.drop_eq_nil_of_le (Nat.le_of_not_lt hmore)]
        exact .ret rfl

theorem sendAll_uploads (hs : s.isConnected = true) (data : List UInt8) :
    Upload s.fd (fun r => r = (.ok ⟨⟩, s)) (Halted s) data (sendAll data s) :=
  sendAllFrom_uploads hs data 0

/-- `send_dynamic` writes the frame of its payload until a transfer moves nothing. -/
theorem sendDynamic_uploads (e : Endian) (hs : s.isConnected = true) (data : List UInt8) :
    Upload s.fd (fun r => r = (.ok ⟨⟩, s)) (Halted s) (frame e data) (sendDynamic e data s) := by
  refine (sendAll_uploads hs _).bind ?_ ?_
  · rintro _ rfl
    exact sendAll_uploads hs data
  · intro h r hr
    cases h with
    | stalled => exact ⟨_, by rw [hr], rfl⟩
    | failed => exact ⟨_, by rw [hr], rfl⟩

/-- On a socket that is not connected `send_all` sends nothing. -/
theorem sendAll_notConnected (hs : s.isConnected = false) {data : List UInt8}
    (hdata : data ≠ []) : sendAll data s = .ret (.error .notConnected, s) := by
  rw [sendAll, sendAllFrom, if_pos (List.length_pos_iff.mpr hdata), bind_run, send_run,
    if_neg (by simp [hs])]
  rfl

/-- Nor does `send_dynamic`. -/
theorem sendDynamic_notConnected (e : Endian) (hs : s.isConnected = false) (data : List UInt8) :
    sendDynamic e data s = .ret (.error .notConnected, s) := by
  have hprefix : e.toBytes prefixSize (e.htonl data.length) ≠ [] := by
    apply List.ne_nil_of_length_pos
    rw [Endian.length_toBytes]
    decide
  simp only [sendDynamic, bind_run, sendAll_notConnected hs hprefix, Resumption.ret_bind]

/-- `send_dynamic` writes exactly the frame of its payload. -/
theorem sendDynamic_writes (e : Endian) (hs : s.isConnected = true) (data : List UInt8) :
    Exchange s.fd (fun r => r = (.ok ⟨⟩, s)) (frame e data) [] (sendDynamic e data s) :=
  (sendDynamic_uploads e hs data).exchange

/-- How the loop of `receive_all` goes on after its `::recv`, when `filled` has
arrived and `rest` is the rest of the buffer. -/
def receiveAllNext (s : TcpSocket) (filled rest : List UInt8) :
    Transfer (List UInt8) → Program (Except SocketError PUnit × (TcpSocket × List UInt8))
  | .failed err =>
      if err.wouldBlock then .ret (.error .closedDuringReceiveAll, (s, filled ++ rest))
      else .ret (.error .receiveFailed, (s.disconnected, filled ++ rest))
  | .done bytes =>
      if bytes.length = 0 then
        .ret (.error .closedDuringReceiveAll, (s.disconnected, filled ++ rest))
      else
        receiveAllFrom (filled.length + rest.length) (filled.length + bytes.length)
          (s, filled ++ bytes ++ rest.drop bytes.length)

/-- One round of the loop of `receive_all`. -/
theorem receiveAllFrom_step (hs : s.isConnected = true) (filled : List UInt8)
    {rest : List UInt8} (hrest : rest ≠ []) :
    receiveAllFrom (filled.length + rest.length) filled.length (s, filled ++ rest) =
      .call (.recv s.fd rest.length) (receiveAllNext s filled rest) := by
  have hmore : filled.length < filled.length + rest.length :=
    Nat.lt_add_of_pos_right (List.length_pos_iff.mpr hrest)
  have hsize : (filled ++ rest).length - filled.length = rest.length := by simp
  rw [receiveAllFrom, if_pos hmore, bind_run, receive_run, if_pos hs, Resumption.call_bind, hsize]
  congr 1
  funext r
  cases r with
  | failed err =>
      cases hblock : err.wouldBlock <;> simp [receiveNext, receiveAllNext, hblock]
  | done bytes =>
      -- the bytes that arrive extend what is filled
      have hstored : (filled ++ rest).take filled.length ++ bytes ++
          (filled ++ rest).drop (filled.length + bytes.length) =
            filled ++ bytes ++ rest.drop bytes.length := by
        rw [List.take_left, List.drop_append]
        simp
      simp only [receiveNext, receiveAllNext, hstored]
      by_cases hbytes : bytes.length = 0 <;> simp [hbytes]

/-- What `receive_all` has made of its socket and of its buffer when it stops with
`got` received: the start of the buffer is overwritten. -/
def Stopped (s : TcpSocket) (buffer : List UInt8) :
    Stop → List UInt8 → Except SocketError PUnit × (TcpSocket × List UInt8) → Prop
  | .blocked, got, r =>
      r = (.error .closedDuringReceiveAll, (s, got ++ buffer.drop got.length))
  | .ended, got, r =>
      r = (.error .closedDuringReceiveAll, (s.disconnected, got ++ buffer.drop got.length))
  | .failed, got, r =>
      r = (.error .receiveFailed, (s.disconnected, got ++ buffer.drop got.length))

/-- A `::recv` that brings nothing ends `receive_all`. -/
theorem receiveAllNext_stop (s : TcpSocket) (buffer filled : List UInt8)
    {r : Transfer (List UInt8)} {x : Stop} (hr : r.stop = some x) :
    ∃ a, receiveAllNext s filled (buffer.drop filled.length) r = .ret a ∧
      Stopped s buffer x filled a := by
  cases r with
  | done bytes =>
      cases bytes with
      | nil =>
          obtain rfl : Stop.ended = x := Option.some.inj hr
          exact ⟨_, by simp [receiveAllNext], rfl⟩
      | cons byte bytes => simp [Transfer.stop] at hr
  | failed err =>
      simp only [Transfer.stop, Option.some.injEq] at hr
      cases hblock : err.wouldBlock with
      | true =>
          rw [if_pos hblock] at hr
          subst hr
          exact ⟨_, by rw [receiveAllNext, if_pos hblock], rfl⟩
      | false =>
          rw [if_neg (by simp [hblock])] at hr
          subst hr
          exact ⟨_, by rw [receiveAllNext, if_neg (by simp [hblock])], rfl⟩

/-- `receive_all` fills the rest of its buffer until a `::recv` brings nothing, and
leaves the socket as it is when it has filled it. -/
theorem receiveAllFrom_downloads (hs : s.isConnected = true) (buffer filled : List UInt8)
    (hle : filled.length ≤ buffer.length) :
    Download s.fd (fun got r => r = (.ok ⟨⟩, (s, got))) (Stopped s buffer) filled
      (buffer.length - filled.length)
      (receiveAllFrom buffer.length filled.length
        (s, filled ++ buffer.drop filled.length)) := by
  -- induction on the number of bytes that are still to be read
  induction hleft : buffer.length - filled.length using Nat.strong_induction_on
    generalizing filled with
  | _ left ih =>
      have hrest : (buffer.drop filled.length).length = left := by rw [List.length_drop, hleft]
      by_cases hfull : left = 0
      · rw [receiveAllFrom, if_neg (by omega), List.drop_eq_nil_of_le (by omega), hfull,
          List.append_nil]
        exact .ret rfl
      · have hne : buffer.drop filled.length ≠ [] := List.length_pos_iff.mp (by omega)
        have hstep := receiveAllFrom_step hs filled hne
        rw [hrest, show filled.length + left = buffer.length by omega] at hstep
        rw [hstep]
        refine .recv (Nat.one_le_iff_ne_zero.mpr hfull) le_rfl (fun bytes hpos hbytes => ?_)
          fun r x hr => receiveAllNext_stop s buffer filled hr
        have hmore := ih (left - bytes.length) (by omega) (filled ++ bytes)
          (by rw [List.length_append]; omega) (by rw [List.length_append]; omega)
        rw [List.length_append, ← List.drop_drop] at hmore
        rw [receiveAllNext, if_neg (Nat.one_le_iff_ne_zero.mp hpos), hrest,
          show filled.length + left = buffer.length by omega]
        exact hmore

theorem receiveAll_run (s : TcpSocket) (buffer : List UInt8) :
    receiveAll (s, buffer) = receiveAllFrom buffer.length 0 (s, buffer) := by
  simp [receiveAll, bind_run]

/-- `receive_all` overwrites its buffer from the start. -/
theorem receiveAll_downloads (hs : s.isConnected = true) (buffer : List UInt8) :
    Download s.fd (fun got r => r = (.ok ⟨⟩, (s, got))) (Stopped s buffer) [] buffer.length
      (receiveAll (s, buffer)) := by
  rw [receiveAll_run]
  exact receiveAllFrom_downloads hs buffer [] (Nat.zero_le _)

/-- On a socket that is not connected `receive_all` receives nothing. -/
theorem receiveAll_notConnected (hs : s.isConnected = false) {buffer : List UInt8}
    (hbuffer : buffer ≠ []) :
    receiveAll (s, buffer) = .ret (.error .notConnected, (s, buffer)) := by
  rw [receiveAll_run, receiveAllFrom, if_pos (List.length_pos_iff.mpr hbuffer), bind_run,
    receive_run, if_neg (by simp [hs])]
  rfl

/-- `receive_all` on a local buffer reads exactly as many bytes as it has. -/
theorem withLocal_receiveAll_reads (hs : s.isConnected = true) (bytes : List UInt8) :
    Exchange s.fd (fun r => r = (.ok (⟨⟩, bytes), s)) [] bytes
      (withLocal (List.replicate bytes.length 0) receiveAll s) := by
  have hread := (receiveAll_downloads hs (List.replicate bytes.length 0)).exchange bytes
    List.length_replicate.symm
  rw [withLocal]
  refine hread.bind_done ?_
  rintro _ rfl
  exact .ret rfl

/-- After any prefix whose length is accepted, `receive_dynamic` reads a payload
of that length and returns it. -/
theorem receiveDynamic_accepts {e : Endian} (hs : s.isConnected = true)
    {pre payload : List UInt8} (hpre : pre.length = prefixSize)
    (hsize : e.htonl (e.ofBytes pre) = payload.length) {maxSize : Nat}
    (hmax : payload.length ≤ maxSize) :
    Exchange s.fd (fun r => r = (.ok payload, s)) [] (pre ++ payload)
      (receiveDynamic e maxSize s) := by
  have hlength := withLocal_receiveAll_reads hs pre
  rw [hpre] at hlength
  refine hlength.bind_reads ?_
  rintro _ rfl
  simp only [hsize]
  rw [if_neg (Nat.not_lt.mpr hmax)]
  by_cases hempty : payload.length = 0
  · rw [if_pos hempty]
    obtain rfl := List.length_eq_zero_iff.mp hempty
    exact .ret rfl
  · rw [if_neg hempty, bind_run]
    refine (withLocal_receiveAll_reads hs payload).bind_done ?_
    rintro _ rfl
    exact .ret rfl

/-- A prefix whose length is not accepted is all that `receive_dynamic` reads. -/
theorem receiveDynamic_rejects {e : Endian} (hs : s.isConnected = true) {pre : List UInt8}
    (hpre : pre.length = prefixSize) {maxSize : Nat}
    (hmax : maxSize < e.htonl (e.ofBytes pre)) :
    Exchange s.fd (fun r => r = (.error (.tooLarge (e.htonl (e.ofBytes pre)) maxSize), s)) [] pre
      (receiveDynamic e maxSize s) := by
  have hlength := withLocal_receiveAll_reads hs pre
  rw [hpre] at hlength
  refine hlength.bind_done ?_
  rintro _ rfl
  simp only
  rw [if_pos hmax]
  exact .ret rfl

/-- `receive_dynamic` reads exactly one frame of an accepted length and returns
its payload. -/
theorem receiveDynamic_reads (e : Endian) (hs : s.isConnected = true) (data : List UInt8)
    (hlen : data.length < 2 ^ 32) {maxSize : Nat} (hmax : data.length ≤ maxSize) :
    Exchange s.fd (fun r => r = (.ok data, s)) [] (frame e data)
      (receiveDynamic e maxSize s) := by
  refine receiveDynamic_accepts hs (Endian.length_toBytes _ _ _) ?_ hmax
  rw [htonl_ofBytes_toBytes, Nat.mod_eq_of_lt hlen]

/-- `receive_dynamic` waits for the prefix first. -/
theorem receiveDynamic_waits (e : Endian) (hs : s.isConnected = true) (maxSize : Nat) :
    ∃ rest, receiveDynamic e maxSize s = .call (.recv s.fd prefixSize) rest := by
  obtain ⟨rest, hrest⟩ : ∃ rest, receiveAllFrom prefixSize 0 (s, List.replicate prefixSize 0) =
      .call (.recv s.fd prefixSize) rest := by
    rw [receiveAllFrom, if_pos (by decide), bind_run, receive_run, if_pos hs]
    exact ⟨_, rfl⟩
  simp only [receiveDynamic, bind_run, withLocal, receiveAll, self_run, Resumption.ret_bind,
    List.length_replicate, hrest, Resumption.call_bind]
  exact ⟨_, rfl⟩

end TcpSocket
end Tcp
end DocaStdexec
