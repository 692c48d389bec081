import DocaStdexec.Common.Framing

/-!
# `send_all` and `receive_all` when the system calls cut them short

A `::send` or a `::recv` may move any part of what it is offered, would block, or
fails, and both loops can leave at any round.  Whatever they do, they have moved the
start of their byte string and nothing else: `send_all` adds a prefix of its data to
the stream, and `receive_all` stores what it takes off the stream at the start of its
buffer.  They return normally exactly when the prefix is everything.
-/

namespace DocaStdexec
namespace PartialTransfer

open Lib
open Tcp Tcp.TcpSocket

/-- `send_all` ends.  It has added a prefix of its data to the stream, and returns
normally exactly when that is all of the data. -/
def SendsPrefix (κ : Kernel) (ended : Bool) (s : TcpSocket) (data : List UInt8)
    (c : Connection) : Prop :=
  ∃ r t m sent, Program.exec κ s.fd ended (sendAll data s) c =
      some ((r, t), ⟨m, c.incoming, c.outgoing ++ sent⟩) ∧
    sent <+: data ∧ (r = .ok ⟨⟩ ↔ sent = data)

/-- `receive_all` ends.  What it has taken off the stream stands at the start of the
buffer, the rest of the buffer is as before, and the call returns normally exactly when
nothing of it is left. -/
def ReceivesPrefix (κ : Kernel) (ended : Bool) (s : TcpSocket) (buffer : List UInt8)
    (c : Connection) : Prop :=
  ∃ r t m got left, Program.exec κ s.fd ended (receiveAll (s, buffer)) c =
      some ((r, (t, got ++ buffer.drop got.length)), ⟨m, left, c.outgoing⟩) ∧
    c.incoming = got ++ left ∧ got.length ≤ buffer.length ∧
    (r = .ok ⟨⟩ ↔ got.length = buffer.length)

variable {s : TcpSocket}

/-- A halt is an exception. -/
theorem ne_ok_of_halted {h : Halt} {r : Except SocketError PUnit} {t : TcpSocket}
    (hr : Halted s h (r, t)) : r ≠ .ok ⟨⟩ := by
  rintro rfl
  cases h with
  | stalled => simp [Halted] at hr
  | failed => simp [Halted] at hr

/-- So is a stop, and it leaves the rest of the buffer as it was. -/
theorem ne_ok_of_stopped {buffer got buffer' : List UInt8} {x : Stop}
    {r : Except SocketError PUnit} {t : TcpSocket} (hr : Stopped s buffer x got (r, (t, buffer'))) :
    r ≠ .ok ⟨⟩ ∧ buffer' = got ++ buffer.drop got.length := by
  cases x with
  | blocked =>
      obtain ⟨rfl, -, rfl⟩ := by simpa only [Stopped, Prod.mk.injEq] using hr
      exact ⟨by simp, rfl⟩
  | ended =>
      obtain ⟨rfl, -, rfl⟩ := by simpa only [Stopped, Prod.mk.injEq] using hr
      exact ⟨by simp, rfl⟩
  | failed =>
      obtain ⟨rfl, -, rfl⟩ := by simpa only [Stopped, Prod.mk.injEq] using hr
      exact ⟨by simp, rfl⟩

theorem sendAll_prefix_of_connected (hs : s.isConnected = true) (κ : Kernel) (ended : Bool)
    (data : List UInt8) (c : Connection) : SendsPrefix κ ended s data c := by
  obtain ⟨⟨r, t⟩, m, sent, rest, hrun, hsplit, hend⟩ := (sendAll_uploads hs data).exec κ ended c
  refine ⟨r, t, m, sent, hrun, ⟨rest, hsplit⟩, ?_⟩
  rcases hend with ⟨rfl, hr⟩ | ⟨hrest, x, hx⟩
  · obtain ⟨rfl, -⟩ := by simpa only [Prod.mk.injEq] using hr
    rw [List.append_nil] at hsplit
    exact iff_of_true rfl hsplit
  · -- something is left of the data, so what was sent is not all of it
    refine iff_of_false (ne_ok_of_halted hx) fun hall => hrest ?_
    rwa [hall, List.append_right_eq_self] at hsplit

/-- A socket that is not connected moves nothing, and throws when there is something to
move. -/
theorem sendAll_prefix_of_not_connected (hs : s.isConnected = false) (κ : Kernel) (ended : Bool)
    (data : List UInt8) (c : Connection) : SendsPrefix κ ended s data c := by
  by_cases hdata : data = []
  · subst hdata
    exact ⟨.ok ⟨⟩, s, c.transfers, [], by simp [sendAll, sendAllFrom, Program.exec],
      List.prefix_rfl, by simp⟩
  · refine ⟨.error .notConnected, s, c.transfers, [], ?_, List.nil_prefix, ?_⟩
    · rw [sendAll_notConnected hs hdata, List.append_nil]
      rfl
    · exact iff_of_false (by simp) (Ne.symm hdata)

theorem receiveAll_prefix_of_connected (hs : s.isConnected = true) (κ : Kernel)
    (buffer : List UInt8) (c : Connection) : ReceivesPrefix κ true s buffer c := by
  obtain ⟨⟨r, t, buffer'⟩, m, got, left, hrun, hsplit, hend⟩ :=
    (receiveAll_downloads hs buffer).exec κ c
  rw [List.nil_append] at hend
  rcases hend with ⟨hlen, hr⟩ | ⟨hlen, x, hx, -⟩
  · -- nothing is left of the old buffer
    obtain ⟨rfl, rfl, rfl⟩ := by simpa only [Prod.mk.injEq] using hr
    refine ⟨.ok ⟨⟩, t, m, buffer', left, ?_, hsplit, hlen.le, iff_of_true rfl hlen⟩
    rw [hrun, hlen, List.drop_length, List.append_nil]
  · obtain ⟨hr, rfl⟩ := ne_ok_of_stopped hx
    exact ⟨r, t, m, got, left, hrun, hsplit, hlen.le, iff_of_false hr hlen.ne⟩

theorem receiveAll_prefix_of_not_connected (hs : s.isConnected = false) (κ : Kernel)
    (ended : Bool) (buffer : List UInt8) (c : Connection) : ReceivesPrefix κ ended s buffer c := by
  by_cases hbuffer : buffer = []
  · subst hbuffer
    refine ⟨.ok ⟨⟩, s, c.transfers, [], c.incoming, ?_, rfl, le_rfl, by simp⟩
    rw [receiveAll_run, receiveAllFrom]
    rfl
  · refine ⟨.error .notConnected, s, c.transfers, [], c.incoming, ?_, rfl, Nat.zero_le _, ?_⟩
    · rw [receiveAll_notConnected hs hbuffer]
      rfl
    · exact iff_of_false (by simp) fun hlen => hbuffer (List.length_eq_zero_iff.mp hlen.symm)

/-- While the peer may still send, `receive_all` waits for ever only when less has
arrived than the buffer holds. -/
theorem receiveAll_waits_or_prefix (s : TcpSocket) (κ : Kernel) (buffer : List UInt8)
    (c : Connection) :
    (Program.exec κ s.fd false (receiveAll (s, buffer)) c = none ∧
      c.incoming.length < buffer.length) ∨ ReceivesPrefix κ false s buffer c := by
  cases hs : s.isConnected with
  | false => exact .inr (receiveAll_prefix_of_not_connected hs κ false buffer c)
  | true =>
      obtain hwait | hopen := Program.exec_open (receiveAll (s, buffer)) c
      · refine .inl ⟨hwait, ?_⟩
        by_contra henough
        exact (receiveAll_downloads hs buffer).exec_ne_none κ c (Nat.le_of_not_lt henough) hwait
      · have htakes := receiveAll_prefix_of_connected hs κ buffer c
        rw [ReceivesPrefix, ← hopen] at htakes
        exact .inr htakes

/-- Both loops transfer exactly a prefix, on any socket, whatever the kernel answers.
While the peer may still send, a `::recv` for which nothing comes has no outcome. -/
theorem transfers_prefix (s : TcpSocket) (κ : Kernel) (c : Connection) :
    (∀ ended data, SendsPrefix κ ended s data c) ∧
      (∀ buffer, ReceivesPrefix κ true s buffer c) ∧
      ∀ buffer, (Program.exec κ s.fd false (receiveAll (s, buffer)) c = none ∧
        c.incoming.length < buffer.length) ∨ ReceivesPrefix κ false s buffer c := by
  refine ⟨fun ended data => ?_, fun buffer => ?_, fun buffer =>
    receiveAll_waits_or_prefix s κ buffer c⟩
  · cases hs : s.isConnected with
    | false => exact sendAll_prefix_of_not_connected hs κ ended data c
    | true => exact sendAll_prefix_of_connected hs κ ended data c
  · cases hs : s.isConnected with
    | false => exact receiveAll_prefix_of_not_connected hs κ true buffer c
    | true => exact receiveAll_prefix_of_connected hs κ buffer c

end PartialTransfer
end DocaStdexec
