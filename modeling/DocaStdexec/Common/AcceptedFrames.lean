import DocaStdexec.Common.Decoding
import DocaStdexec.Common.LengthPrefix

/-!
# What `receive_dynamic` accepts

The length that `receive_dynamic` reads lies in four of the eight bytes of the prefix:
`htonl` drops the other four.  A prefix with something in these is not one that
`send_dynamic` writes, but its message is returned all the same.  The bytes that a
returned payload has consumed are therefore its frame exactly when the four bytes are
zero.
-/

namespace DocaStdexec
namespace AcceptedFrames

open Lib
open Tcp Tcp.TcpSocket Decoding LengthPrefix

/-- The four bytes of a prefix that hold the length, in network order. -/
def lengthField (e : Endian) (stream : List UInt8) : List UInt8 :=
  match e with
  | .little => stream.take 4
  | .big => (stream.drop 4).take 4

/-- The other four bytes. -/
def unread (e : Endian) (stream : List UInt8) : List UInt8 :=
  match e with
  | .little => (stream.drop 4).take 4
  | .big => stream.take 4

/-- Whatever `receive_dynamic` returns has consumed the frame that `send_dynamic` puts
on the stream for it, and a stream that does not start with a frame makes it throw. -/
structure AcceptsOnlyFrames (κ : Kernel) (e : Endian) (a b : TcpSocket) (maxSize : Nat)
    (stream : List UInt8) : Prop where
  consumed : ∀ (κ' : Kernel) (ended : Bool) (n : Nat) (sent payload : List UInt8)
    (t : TcpSocket) (c : Connection),
    Program.exec κ' b.fd ended (receiveDynamic e maxSize b) ⟨n, stream, sent⟩ =
      some ((.ok payload, t), c) →
    ∃ wire, Puts κ e a payload wire ∧ stream = wire ++ c.incoming
  throws : (¬∃ payload wire left, Puts κ e a payload wire ∧ stream = wire ++ left) →
    ∀ (κ' : Kernel) (n : Nat) (sent : List UInt8), ∃ err t c,
      Program.exec κ' b.fd true (receiveDynamic e maxSize b) ⟨n, stream, sent⟩ =
        some ((.error err, t), c)

/-- The bytes of the prefix that are dropped are zero, or the message is not returned:
the stream ends too early, or the length is over the limit. -/
def Canonical (e : Endian) (maxSize : Nat) (stream : List UInt8) : Prop :=
  unread e stream = [0, 0, 0, 0] ∨ maxSize < Endian.big.ofBytes (lengthField e stream) ∨
    stream.length < 8 + Endian.big.ofBytes (lengthField e stream)

instance (e : Endian) (maxSize : Nat) (stream : List UInt8) :
    Decidable (Canonical e maxSize stream) :=
  inferInstanceAs (Decidable (_ ∨ _ ∨ _))

/-! ## The two halves of a prefix -/

section Prefix

variable {e : Endian} {stream : List UInt8}

/-- Lowest byte first, the length field comes before the bytes that are dropped. -/
theorem order_take (e : Endian) (stream : List UInt8) :
    e.order (stream.take prefixSize) =
      e.order (lengthField e stream) ++ e.order (unread e stream) := by
  -- the two halves, as they stand on the stream
  have htake : stream.take prefixSize = stream.take 4 ++ (stream.drop 4).take 4 := by
    rw [prefixSize, show 8 = 4 + 4 from rfl, List.take_add]
  rw [htake]
  cases e with
  | little => rfl
  | big => exact List.reverse_append

theorem length_lengthField (hlong : prefixSize ≤ stream.length) :
    (lengthField e stream).length = 4 := by
  rw [prefixSize] at hlong
  cases e <;> simp [lengthField] <;> omega

theorem length_unread (hlong : prefixSize ≤ stream.length) : (unread e stream).length = 4 := by
  rw [prefixSize] at hlong
  cases e <;> simp [unread] <;> omega

/-- The announced length is in the length field. -/
theorem announced_eq (hlong : prefixSize ≤ stream.length) :
    announced e stream = Endian.big.ofBytes (lengthField e stream) := by
  rw [announced, Endian.ofBytes, order_take,
    Endian.htonl_littleValue e _ (by rw [Endian.length_order, length_lengthField hlong]),
    Endian.order_order]

/-- The prefix is the one that `send_dynamic` writes for the announced length exactly
when nothing of it is dropped. -/
theorem take_eq_iff (hlong : prefixSize ≤ stream.length) :
    stream.take prefixSize = e.toBytes prefixSize (e.htonl (announced e stream)) ↔
      unread e stream = [0, 0, 0, 0] := by
  have hpre : (stream.take prefixSize).length = prefixSize := List.length_take_of_le hlong
  have hfield : (e.order (lengthField e stream)).length = 4 := by
    rw [Endian.length_order, length_lengthField hlong]
  have hback := e.toBytes_ofBytes (stream.take prefixSize)
  have hlt := e.ofBytes_lt (stream.take prefixSize)
  rw [hpre] at hback hlt
  -- the bytes that are dropped are the high ones of the integer
  have hfits : e.ofBytes (stream.take prefixSize) < 2 ^ 32 ↔ unread e stream = [0, 0, 0, 0] := by
    have hsplit := littleValue_append_lt_iff (e.order (lengthField e stream))
      (e.order (unread e stream))
    rw [hfield, ← order_take, Endian.length_order, length_unread hlong] at hsplit
    refine hsplit.trans ?_
    cases e with
    | little => rfl
    | big => exact List.reverse_eq_iff
  rw [announced, Endian.htonl_htonl, ← hfits]
  constructor
  · intro heq
    have hmod := e.ofBytes_toBytes prefixSize (e.ofBytes (stream.take prefixSize) % 2 ^ 32)
    rw [← heq] at hmod
    rw [hmod]
    exact (Nat.mod_le _ _).trans_lt (Nat.mod_lt _ (by decide))
  · intro hsmall
    rw [Nat.mod_eq_of_lt hsmall, hback]

end Prefix

/-! ## A call on any kernel -/

section Code

variable {s : TcpSocket}

/-- `receive_all` on a local buffer takes as many bytes as the buffer has, or throws. -/
theorem withLocal_receiveAll_exec (hs : s.isConnected = true) (κ : Kernel) (size : Nat)
    (c : Connection) :
    ∃ m bytes left, c.incoming = bytes ++ left ∧
      ((bytes.length = size ∧
        Program.exec κ s.fd true (Method.withLocal (List.replicate size 0) receiveAll s) c =
          some ((.ok (⟨⟩, bytes), s), ⟨m, left, c.outgoing⟩)) ∨
      ∃ err t,
        Program.exec κ s.fd true (Method.withLocal (List.replicate size 0) receiveAll s) c =
          some ((.error err, t), ⟨m, left, c.outgoing⟩)) := by
  obtain ⟨a, m, bytes, left, hrun, hsplit, hend⟩ :=
    (receiveAll_downloads hs (List.replicate size 0)).exec κ c
  refine ⟨m, bytes, left, hsplit, ?_⟩
  rw [List.length_replicate] at hend
  rw [Method.withLocal, Program.exec_bind, hrun]
  rcases hend with ⟨hlen, rfl⟩ | ⟨-, x, hx, -⟩
  · exact .inl ⟨hlen, rfl⟩
  · refine .inr ?_
    cases x with
    | blocked => exact ⟨_, _, by rw [hx]; rfl⟩
    | ended => exact ⟨_, _, by rw [hx]; rfl⟩
    | failed => exact ⟨_, _, by rw [hx]; rfl⟩

/-- A call of `receive_dynamic` on a stream that ends returns or throws, and what it
returns is as long as the prefix says and has followed it on the stream. -/
theorem receiveDynamic_ends (hs : s.isConnected = true) (κ : Kernel) (e : Endian)
    (maxSize : Nat) (c : Connection) :
    ∃ r t m left, Program.exec κ s.fd true (receiveDynamic e maxSize s) c =
        some ((r, t), ⟨m, left, c.outgoing⟩) ∧
      ∀ payload, r = .ok payload → ∃ pre, pre.length = prefixSize ∧
        c.incoming = pre ++ payload ++ left ∧ payload.length = e.htonl (e.ofBytes pre) ∧
        payload.length ≤ maxSize := by
  obtain ⟨m, pre, left, hsplit, hfirst⟩ := withLocal_receiveAll_exec hs κ prefixSize c
  rw [receiveDynamic, Method.bind_run, Program.exec_bind]
  rcases hfirst with ⟨hpre, hfirst⟩ | ⟨err, t, hfirst⟩
  · rw [hfirst, Option.bind_some]
    simp only
    by_cases hmax : e.htonl (e.ofBytes pre) > maxSize
    · rw [if_pos hmax]
      exact ⟨_, _, m, left, rfl, by simp⟩
    rw [if_neg hmax]
    by_cases hzero : e.htonl (e.ofBytes pre) = 0
    · rw [if_pos hzero]
      refine ⟨_, _, m, left, rfl, fun payload hok => ⟨pre, hpre, ?_⟩⟩
      obtain rfl := Except.ok.inj hok
      rw [List.append_nil]
      exact ⟨hsplit, hzero.symm, Nat.zero_le _⟩
    · rw [if_neg hzero, Method.bind_run, Program.exec_bind]
      obtain ⟨m', payload, left', hsplit', hsecond⟩ :=
        withLocal_receiveAll_exec hs κ (e.htonl (e.ofBytes pre)) ⟨m, left, c.outgoing⟩
      rcases hsecond with ⟨hlen, hsecond⟩ | ⟨err, t, hsecond⟩
      · rw [hsecond]
        refine ⟨_, _, m', left', rfl, fun payload' hok => ⟨pre, hpre, ?_⟩⟩
        obtain rfl := Except.ok.inj hok
        rw [hsplit, show left = payload ++ left' from hsplit', List.append_assoc]
        exact ⟨rfl, hlen, hlen.le.trans (Nat.le_of_not_lt hmax)⟩
      · rw [hsecond]
        exact ⟨_, _, m', left', rfl, by simp⟩
  · rw [hfirst]
    exact ⟨_, _, m, left, rfl, by simp⟩

end Code

/-! ## Exactly the frames -/

section Frames

variable {κ : Kernel} {e : Endian} {a b : TcpSocket} {maxSize : Nat} {stream : List UInt8}

/-- A socket that is not connected accepts nothing. -/
theorem acceptsOnlyFrames_of_not_connected (hb : b.isConnected = false) (κ : Kernel)
    (e : Endian) (a : TcpSocket) (maxSize : Nat) (stream : List UInt8) :
    AcceptsOnlyFrames κ e a b maxSize stream := by
  have hthrow : receiveDynamic e maxSize b = .ret (.error .notConnected, b) := by
    have hne : List.replicate prefixSize (0 : UInt8) ≠ [] := by decide
    simp only [receiveDynamic, Method.bind_run, Method.withLocal, receiveAll_notConnected hb hne,
      Resumption.ret_bind]
  refine ⟨fun κ' ended n sent payload t c hrun => ?_, fun _ κ' n sent => ?_⟩
  · rw [hthrow] at hrun
    simp [Program.exec] at hrun
  · rw [hthrow]
    exact ⟨_, _, _, rfl⟩

/-- What `receive_dynamic` has consumed from a stream with a canonical prefix is a
frame. -/
theorem Canonical.starts_with_frame (h : Canonical e maxSize stream) {pre payload left : List UInt8}
    (hpre : pre.length = prefixSize) (hstream : stream = pre ++ payload ++ left)
    (hlen : payload.length = e.htonl (e.ofBytes pre)) (hmax : payload.length ≤ maxSize) :
    stream = frame e payload ++ left := by
  have htake : stream.take prefixSize = pre := by
    rw [hstream, List.append_assoc, List.take_left' hpre]
  have hlong : stream.length = prefixSize + payload.length + left.length := by
    rw [hstream, List.length_append, List.length_append, hpre]
  have hann : announced e stream = payload.length := by rw [announced, htake, hlen]
  -- the payload is there and not too long, which leaves the first alternative
  have hunread : unread e stream = [0, 0, 0, 0] := by
    rw [Canonical, ← announced_eq (by omega), hann] at h
    rw [prefixSize] at hlong
    rcases h with hzero | hover | hshort
    · exact hzero
    · omega
    · omega
  have hprefix := (take_eq_iff (by omega)).mpr hunread
  rw [htake, hann] at hprefix
  rw [hstream, frame, ← hprefix]

theorem acceptsOnlyFrames_of_canonical (hκ : κ.Faultless) (ha : a.isConnected = true)
    (hb : b.isConnected = true) (h : Canonical e maxSize stream) :
    AcceptsOnlyFrames κ e a b maxSize stream := by
  -- on an open stream a call returns what it returns when the stream ends
  have hframe (κ' : Kernel) (n : Nat) (sent payload : List UInt8) (t : TcpSocket)
      (c : Connection) (hrun : Program.exec κ' b.fd true (receiveDynamic e maxSize b)
        ⟨n, stream, sent⟩ = some ((.ok payload, t), c)) :
      stream = frame e payload ++ c.incoming := by
    obtain ⟨r, t', m, left, hrun', hok⟩ := receiveDynamic_ends hb κ' e maxSize ⟨n, stream, sent⟩
    rw [hrun] at hrun'
    obtain ⟨⟨rfl, rfl⟩, rfl⟩ : (Except.ok payload = r ∧ t = t') ∧ c = _ := by
      simpa using hrun'
    obtain ⟨pre, hpre, hstream, hlen, hmax⟩ := hok payload rfl
    exact h.starts_with_frame hpre hstream hlen hmax
  refine ⟨fun κ' ended n sent payload t c hrun => ?_, fun hnot κ' n sent => ?_⟩
  · refine ⟨frame e payload, puts_frame hκ ha e payload, ?_⟩
    cases ended with
    | true => exact hframe κ' n sent payload t c hrun
    | false =>
        obtain hwait | hopen :=
          Program.exec_open (receiveDynamic e maxSize b) ⟨n, stream, sent⟩
        · rw [hwait] at hrun
          cases hrun
        · exact hframe κ' n sent payload t c (hopen ▸ hrun)
  · obtain ⟨r, t, m, left, hrun, -⟩ := receiveDynamic_ends hb κ' e maxSize ⟨n, stream, sent⟩
    cases r with
    | error err => exact ⟨err, t, _, hrun⟩
    | ok payload =>
        exact absurd ⟨payload, _, _, puts_frame hκ ha e payload,
          hframe κ' n sent payload t _ hrun⟩ hnot

/-- A message that is returned shows its prefix. -/
theorem canonical_of_acceptsOnlyFrames (hκ : κ.Faultless) (ha : a.isConnected = true)
    (hb : b.isConnected = true) (h : AcceptsOnlyFrames κ e a b maxSize stream) :
    Canonical e maxSize stream := by
  by_contra hnot
  rw [Canonical, not_or, not_or, Nat.not_lt, Nat.not_lt] at hnot
  obtain ⟨hunread, hmax, hlong⟩ := hnot
  have hpre : prefixSize ≤ stream.length := Nat.le_of_add_right_le hlong
  rw [← announced_eq hpre] at hmax hlong
  obtain ⟨m, hrun⟩ := receiveDynamic_exec Kernel.whole_faultless hb e maxSize stream [] 0
  rw [decode_of_payload hmax hlong] at hrun
  obtain ⟨wire, hputs, hstream⟩ := h.consumed _ _ _ _ _ _ _ hrun
  obtain rfl := (puts_frame hκ ha e _).unique hputs
  -- the frame of the payload and the stream have the same prefix
  refine hunread ((take_eq_iff hpre).mp ?_)
  have hpayload : ((stream.drop prefixSize).take (announced e stream)).length =
      announced e stream := by
    apply List.length_take_of_le
    rw [List.length_drop]
    exact Nat.le_sub_of_add_le' hlong
  have htake := congrArg (List.take prefixSize) hstream
  rwa [frame, hpayload, List.append_assoc,
    List.take_left' (Endian.length_toBytes e prefixSize _)] at htake

/-- `receive_dynamic` accepts only frames exactly when the four bytes of the prefix that
it drops are zero, or the message is not returned anyway. -/
theorem acceptsOnlyFrames_iff (hκ : κ.Faultless) (ha : a.isConnected = true) (e : Endian)
    (b : TcpSocket) (maxSize : Nat) (stream : List UInt8) :
    AcceptsOnlyFrames κ e a b maxSize stream ↔
      b.isConnected = false ∨ Canonical e maxSize stream := by
  cases hb : b.isConnected with
  | false =>
      exact iff_of_true (acceptsOnlyFrames_of_not_connected hb κ e a maxSize stream) (.inl rfl)
  | true =>
      constructor
      · exact fun h => .inr (canonical_of_acceptsOnlyFrames hκ ha hb h)
      · rintro (hfalse | hcanonical)
        · cases hfalse
        · exact acceptsOnlyFrames_of_canonical hκ ha hb hcanonical

theorem acceptsOnlyFrames_iff_frame :
    AcceptsOnlyFrames .bytewise .little ⟨3, true⟩ ⟨4, true⟩ 5
      [0, 0, 0, 2, 0, 0, 0, 0, 7, 8, 9] :=
  (acceptsOnlyFrames_iff Kernel.bytewise_faultless rfl .little ⟨4, true⟩ 5
    [0, 0, 0, 2, 0, 0, 0, 0, 7, 8, 9]).mpr (.inr (by decide))

/-- A prefix with a byte that is dropped is taken for an empty message. -/
theorem not_acceptsOnlyFrames_dropped :
    ¬AcceptsOnlyFrames .whole .little ⟨3, true⟩ ⟨4, true⟩ defaultMaxSize
      [0, 0, 0, 0, 1, 0, 0, 0] := by
  intro h
  have hcanonical := canonical_of_acceptsOnlyFrames Kernel.whole_faultless rfl rfl h
  revert hcanonical
  decide

end Frames
end AcceptedFrames
end DocaStdexec
