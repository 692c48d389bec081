import DocaStdexec.Common.Framing
import DocaStdexec.Lib.Connection

/-!
# What the two ends make of a length

`send_dynamic` gives the payload's length to `htonl`, which keeps 32 bits, and
stores the result in the 8 bytes of a `std::size_t`; `receive_dynamic` does the
same on its side.  The length that arrives is therefore the payload's length
modulo 2^32 between hosts of one byte order, and 0 between hosts of different
orders, whose 32 bits lie in different halves of the prefix.

The limit of the receiver is compared with the length that arrives.
-/

namespace DocaStdexec
namespace LengthPrefix

open Lib
open Tcp Tcp.TcpSocket

/-- The length that a receiver of byte order `e'` takes from the prefix that a
sender of byte order `e` has written for `n` bytes. -/
def readLength (e e' : Endian) (n : Nat) : Nat :=
  e'.htonl (e'.ofBytes (e.toBytes prefixSize (e.htonl n)))

theorem readLength_same (e : Endian) (n : Nat) : readLength e e n = n % 2 ^ 32 :=
  htonl_ofBytes_toBytes e n

theorem readLength_of_ne {e e' : Endian} (he : e ≠ e') (n : Nat) : readLength e e' n = 0 := by
  obtain ⟨m, hm⟩ := Endian.ofBytes_toBytes_of_ne he (e.htonl_lt n)
  rw [readLength, prefixSize, hm, Endian.htonl_mul_two_pow]

theorem readLength_le (e e' : Endian) (n : Nat) : readLength e e' n ≤ n := by
  by_cases he : e = e'
  · subst he
    rw [readLength_same]
    exact Nat.mod_le _ _
  · rw [readLength_of_ne he]
    exact Nat.zero_le _

section Ends

variable {κ κ' : Kernel} {a b : TcpSocket} {e e' : Endian}

/-- `send_dynamic` returns and has put `wire` on the stream. -/
def Puts (κ : Kernel) (e : Endian) (a : TcpSocket) (data wire : List UInt8) : Prop :=
  ∃ m, Program.exec κ a.fd false (sendDynamic e data a) ⟨0, [], []⟩ =
    some ((.ok ⟨⟩, a), ⟨m, [], wire⟩)

/-- `receive_dynamic` on the stream `wire` gives `r` and leaves `left`. -/
def Takes (κ : Kernel) (e : Endian) (b : TcpSocket) (maxSize : Nat) (wire : List UInt8)
    (r : Except SocketError (List UInt8)) (left : List UInt8) : Prop :=
  ∃ m, Program.exec κ b.fd false (receiveDynamic e maxSize b) ⟨0, wire, []⟩ =
    some ((r, b), ⟨m, left, []⟩)

theorem puts_frame (hκ : κ.Faultless) (ha : a.isConnected = true) (e : Endian)
    (data : List UInt8) : Puts κ e a data (frame e data) := by
  obtain ⟨_, m, hrun, rfl⟩ := (sendDynamic_writes e ha data).exec hκ false 0 [] []
  exact ⟨m, hrun⟩

theorem Puts.unique {data wire wire' : List UInt8} (h : Puts κ e a data wire)
    (h' : Puts κ e a data wire') : wire = wire' := by
  obtain ⟨m, hrun⟩ := h
  obtain ⟨m', hrun'⟩ := h'
  rw [hrun] at hrun'
  exact congrArg (fun r => r.2.outgoing) (Option.some.inj hrun')

theorem Takes.unique {maxSize : Nat} {wire left left' : List UInt8}
    {r r' : Except SocketError (List UInt8)} (h : Takes κ e b maxSize wire r left)
    (h' : Takes κ e b maxSize wire r' left') : r = r' ∧ left = left' := by
  obtain ⟨m, hrun⟩ := h
  obtain ⟨m', hrun'⟩ := h'
  rw [hrun] at hrun'
  have hsame := Option.some.inj hrun'
  exact ⟨congrArg (fun r => r.1.1) hsame, congrArg (fun r => r.2.incoming) hsame⟩

/-- A length that is accepted takes that many bytes of the payload. -/
theorem takes_payload (hκ : κ.Faultless) (hb : b.isConnected = true) (e e' : Endian)
    {maxSize : Nat} (data following : List UInt8)
    (hmax : readLength e e' data.length ≤ maxSize) :
    Takes κ e' b maxSize (frame e data ++ following)
      (.ok (data.take (readLength e e' data.length)))
      (data.drop (readLength e e' data.length) ++ following) := by
  have hlen : (data.take (readLength e e' data.length)).length = readLength e e' data.length :=
    List.length_take_of_le (readLength_le e e' _)
  have hread := receiveDynamic_accepts (e := e') hb (Endian.length_toBytes e _ _) hlen.symm
    (hlen.le.trans hmax)
  obtain ⟨_, m, hrun, rfl⟩ := hread.exec hκ false 0
    (data.drop (readLength e e' data.length) ++ following) []
  refine ⟨m, ?_⟩
  rw [List.append_assoc, ← List.append_assoc (data.take _), List.take_append_drop,
    ← List.append_assoc] at hrun
  exact hrun

/-- A length that is not accepted leaves the whole payload on the stream. -/
theorem takes_tooLarge (hκ : κ.Faultless) (hb : b.isConnected = true) (e e' : Endian)
    {maxSize : Nat} (data following : List UInt8)
    (hmax : maxSize < readLength e e' data.length) :
    Takes κ e' b maxSize (frame e data ++ following)
      (.error (.tooLarge (readLength e e' data.length) maxSize)) (data ++ following) := by
  obtain ⟨_, m, hrun, rfl⟩ :=
    (receiveDynamic_rejects hb (Endian.length_toBytes e _ _) hmax).exec hκ false 0
      (data ++ following) []
  refine ⟨m, ?_⟩
  rw [← List.append_assoc] at hrun
  exact hrun

/-- Exactly the payloads whose length arrives as it is are returned. -/
theorem takes_data_iff (hκ : κ.Faultless) (hb : b.isConnected = true) (e e' : Endian)
    {maxSize : Nat} (data following : List UInt8)
    (hmax : readLength e e' data.length ≤ maxSize) :
    Takes κ e' b maxSize (frame e data ++ following) (.ok data) following ↔
      readLength e e' data.length = data.length := by
  have htakes := takes_payload hκ hb e e' data following hmax
  constructor
  · intro h
    obtain ⟨hdata, -⟩ := htakes.unique h
    rw [← List.length_take_of_le (readLength_le e e' data.length), Except.ok.inj hdata]
  · intro hlen
    rwa [hlen, List.take_length, List.drop_length, List.nil_append] at htakes

/-! ## Long payloads -/

/-- Either end throws, or the payload arrives and the stream is left at what
follows its frame. -/
def Intact (κ κ' : Kernel) (e : Endian) (a b : TcpSocket) (maxSize : Nat)
    (data following : List UInt8) : Prop :=
  ∃ r t c, Program.exec κ a.fd false (sendDynamic e data a) ⟨0, [], []⟩ = some ((r, t), c) ∧
    ((∃ err, r = .error err) ∨
      ∃ r' left, Takes κ' e b maxSize (c.outgoing ++ following) r' left ∧
        ((∃ err, r' = .error err) ∨ r' = .ok data ∧ left = following))

theorem intact_iff_takes (hκ : κ.Faultless) (ha : a.isConnected = true) (e : Endian)
    (maxSize : Nat) (data following : List UInt8) :
    Intact κ κ' e a b maxSize data following ↔
      ∃ r left, Takes κ' e b maxSize (frame e data ++ following) r left ∧
        ((∃ err, r = .error err) ∨ r = .ok data ∧ left = following) := by
  obtain ⟨m, hsent⟩ := puts_frame hκ ha e data
  constructor
  · rintro ⟨r, t, c, hrun, hr⟩
    rw [hsent] at hrun
    obtain ⟨⟨rfl, rfl⟩, rfl⟩ : (Except.ok ⟨⟩ = r ∧ a = t) ∧ _ = c := by simpa using hrun
    exact hr.resolve_left (by simp)
  · exact fun h => ⟨_, _, _, hsent, .inr h⟩

/-- What happens to a payload of accepted length is decided by its length. -/
theorem intact_iff_length (hκ : κ.Faultless) (hκ' : κ'.Faultless) (ha : a.isConnected = true)
    (hb : b.isConnected = true) (e : Endian) {maxSize : Nat} (data following : List UInt8)
    (hmax : data.length % 2 ^ 32 ≤ maxSize) :
    Intact κ κ' e a b maxSize data following ↔ data.length < 2 ^ 32 := by
  rw [← readLength_same e] at hmax
  have htakes := takes_payload hκ' hb e e data following hmax
  rw [intact_iff_takes hκ ha]
  constructor
  · rintro ⟨r, left, h, hr⟩
    obtain ⟨rfl, rfl⟩ := htakes.unique h
    obtain ⟨hdata, hleft⟩ := hr.resolve_left (by simp)
    rw [hdata, hleft, takes_data_iff hκ' hb e e data following hmax, readLength_same] at htakes
    rw [← htakes]
    exact Nat.mod_lt _ (by decide)
  · intro hlen
    refine ⟨_, _, (takes_data_iff hκ' hb e e data following hmax).mpr ?_, .inr ⟨rfl, rfl⟩⟩
    rw [readLength_same, Nat.mod_eq_of_lt hlen]

/-- No payload is mangled exactly when its length fits the prefix, or what
arrives of the length is over the limit. -/
theorem intact_iff (hκ : κ.Faultless) (hκ' : κ'.Faultless) (ha : a.isConnected = true)
    (hb : b.isConnected = true) (e : Endian) (maxSize : Nat) (data following : List UInt8) :
    Intact κ κ' e a b maxSize data following ↔
      data.length < 2 ^ 32 ∨ maxSize < data.length % 2 ^ 32 := by
  by_cases hmax : maxSize < data.length % 2 ^ 32
  · rw [intact_iff_takes hκ ha]
    rw [← readLength_same e] at hmax
    have htakes := takes_tooLarge hκ' hb e e data following hmax
    rw [readLength_same] at hmax
    exact iff_of_true ⟨_, _, htakes, .inl ⟨_, rfl⟩⟩ (.inr hmax)
  · rw [intact_iff_length hκ hκ' ha hb e data following (Nat.le_of_not_lt hmax)]
    simp only [hmax, or_false]

theorem intact_iff_short :
    Intact .whole .bytewise .little ⟨3, true⟩ ⟨4, true⟩ 5 [7, 8] [9] :=
  (intact_iff Kernel.whole_faultless Kernel.bytewise_faultless rfl rfl .little 5 [7, 8] [9]).mpr
    (by decide)

/-- A payload of 2^32 bytes arrives as an empty message, and the next call reads
its first bytes as a prefix. -/
theorem not_intact_of_length_eq {data : List UInt8} (hlen : data.length = 2 ^ 32) :
    ¬Intact .whole .whole .little ⟨3, true⟩ ⟨4, true⟩ defaultMaxSize data [] := by
  rw [intact_iff_length Kernel.whole_faultless Kernel.whole_faultless rfl rfl .little data []
    (by rw [hlen]; decide), hlen]
  decide

theorem not_every_length_intact :
    ¬Intact .whole .whole .little ⟨3, true⟩ ⟨4, true⟩ defaultMaxSize
      (List.replicate (2 ^ 32) 0) [] :=
  not_intact_of_length_eq List.length_replicate

/-! ## Hosts of different byte order -/

/-- The frame of a payload is the same on both kinds of host, and the receiving
host takes the payload and exactly the frame. -/
structure HostIndependent (κ : Endian → Kernel) (κ' : Kernel) (e e' : Endian) (a b : TcpSocket)
    (maxSize : Nat) (data following : List UInt8) : Prop where
  sent : ∃ wire, ∀ order, Puts (κ order) order a data wire
  received : ∃ wire, Puts (κ e) e a data wire ∧
    Takes κ' e' b maxSize (wire ++ following) (.ok data) following

/-- Two hosts understand each other exactly when they have the same byte order,
or nothing is to be said. -/
theorem takes_frame_iff (hκ : κ.Faultless) (hb : b.isConnected = true) (e e' : Endian)
    {maxSize : Nat} {data : List UInt8} (following : List UInt8) (hlen : data.length < 2 ^ 32)
    (hmax : data.length ≤ maxSize) :
    Takes κ e' b maxSize (frame e data ++ following) (.ok data) following ↔
      e = e' ∨ data = [] := by
  rw [takes_data_iff hκ hb e e' data following ((readLength_le e e' _).trans hmax)]
  by_cases he : e = e'
  · subst he
    rw [readLength_same, Nat.mod_eq_of_lt hlen]
    simp
  · rw [readLength_of_ne he, eq_comm, List.length_eq_zero_iff]
    simp [he]

/-- Only the empty payload has one frame. -/
theorem frame_eq_frame_iff {data : List UInt8} (hlen : data.length < 2 ^ 32) :
    frame .little data = frame .big data ↔ data = [] := by
  constructor
  · intro hframe
    have hpre : Endian.little.toBytes prefixSize (Endian.little.htonl data.length) =
        Endian.big.toBytes prefixSize (Endian.big.htonl data.length) :=
      List.append_cancel_right hframe
    -- a big-endian host reads 0 from the one and the length from the other
    have hsame := readLength_same .big data.length
    rw [readLength, ← hpre, Nat.mod_eq_of_lt hlen] at hsame
    have hzero := readLength_of_ne (show Endian.little ≠ .big by decide) data.length
    rw [readLength, hsame] at hzero
    exact List.length_eq_zero_iff.mp hzero
  · rintro rfl
    decide

theorem puts_same_iff {κ : Endian → Kernel} (hκ : ∀ order, (κ order).Faultless)
    (ha : a.isConnected = true) {data : List UInt8} (hlen : data.length < 2 ^ 32) :
    (∃ wire, ∀ order, Puts (κ order) order a data wire) ↔ data = [] := by
  rw [← frame_eq_frame_iff hlen]
  constructor
  · rintro ⟨wire, h⟩
    rw [(puts_frame (hκ .little) ha .little data).unique (h .little),
      (puts_frame (hκ .big) ha .big data).unique (h .big)]
  · intro hframe
    refine ⟨frame .little data, fun order => ?_⟩
    cases order with
    | little => exact puts_frame (hκ .little) ha .little data
    | big => exact hframe ▸ puts_frame (hκ .big) ha .big data

/-- The format is independent of the hosts' byte orders for the empty payload
only. -/
theorem hostIndependent_iff {κ : Endian → Kernel} (hκ : ∀ order, (κ order).Faultless)
    (hκ' : κ'.Faultless) (ha : a.isConnected = true) (hb : b.isConnected = true) (e e' : Endian)
    {maxSize : Nat} {data : List UInt8} (following : List UInt8) (hlen : data.length < 2 ^ 32)
    (hmax : data.length ≤ maxSize) :
    HostIndependent κ κ' e e' a b maxSize data following ↔ data = [] := by
  constructor
  · exact fun h => (puts_same_iff hκ ha hlen).mp h.sent
  · intro hempty
    exact ⟨(puts_same_iff hκ ha hlen).mpr hempty, frame e data, puts_frame (hκ e) ha e data,
      (takes_frame_iff hκ' hb e e' following hlen hmax).mpr (.inr hempty)⟩

theorem hostIndependent_iff_empty :
    HostIndependent (fun _ => .whole) .bytewise .little .big ⟨3, true⟩ ⟨4, true⟩ 5 [] [9] :=
  (hostIndependent_iff (fun _ => Kernel.whole_faultless) Kernel.bytewise_faultless rfl rfl
    .little .big [9] (by decide) (by decide)).mpr rfl

/-- A big-endian host takes a byte from a little-endian one for an empty message. -/
theorem not_hostIndependent_byte :
    ¬HostIndependent (fun _ => .whole) .whole .little .big ⟨3, true⟩ ⟨4, true⟩ 1 [7] [] := by
  rintro ⟨-, wire, hputs, htakes⟩
  rw [← (puts_frame Kernel.whole_faultless rfl .little [7]).unique hputs,
    takes_frame_iff Kernel.whole_faultless rfl .little .big [] (by decide) (by decide)] at htakes
  revert htakes
  decide

end Ends
end LengthPrefix
end DocaStdexec
