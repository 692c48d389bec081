import DocaStdexec.Common.MessageStream
import DocaStdexec.Lib.Connection

/-!
# After a message that is too large

A caller of `receive_dynamic` that catches the exception for a message over its
limit and calls again.  The exception is thrown when the prefix has been read and
the payload has not, and unlike a failed transfer it leaves the socket connected,
so the next call takes the payload for a prefix.

`receiveEach` records for each call of a run the bytes that it starts at.  The run
keeps to the frames of the stream exactly when no call but its last one gives a
limit below the length of its message.
-/

namespace DocaStdexec
namespace Rejection

open Lib
open Tcp Tcp.TcpSocket MessageStream

/-- A call of `receive_dynamic`: what it finds on the stream, and what it gives,
or nothing when it waits for ever. -/
structure Call where
  before : List UInt8
  result : Option (Except SocketError (List UInt8))

/-- The peer gives one message after the other to `send_dynamic`, until one
throws. -/
def sendEach (κ : Kernel) (e : Endian) :
    List (List UInt8) → TcpSocket → Connection → Option (TcpSocket × Connection)
  | [], a, c => some (a, c)
  | data :: msgs, a, c =>
      match Program.exec κ a.fd false (sendDynamic e data a) c with
      | some ((.ok _, a'), c') => sendEach κ e msgs a' c'
      | _ => none

/-- The caller asks for one message after the other, with the given limits, and
goes on when a call throws. -/
def receiveEach (κ : Kernel) (e : Endian) : List Nat → TcpSocket → Connection → List Call
  | [], _, _ => []
  | maxSize :: maxSizes, b, c =>
      match Program.exec κ b.fd false (receiveDynamic e maxSize b) c with
      | some ((r, b'), c') => ⟨c.incoming, some r⟩ :: receiveEach κ e maxSizes b' c'
      | none => [⟨c.incoming, none⟩]

/-- The messages that the calls have returned. -/
def returned (calls : List Call) : List (List UInt8) :=
  calls.filterMap fun call => call.result.bind Except.toOption

@[simp] theorem returned_nil : returned [] = [] := rfl

@[simp] theorem returned_cons_ok (before data : List UInt8) (calls : List Call) :
    returned (⟨before, some (.ok data)⟩ :: calls) = data :: returned calls := rfl

@[simp] theorem returned_cons_error (before : List UInt8) (err : SocketError)
    (calls : List Call) :
    returned (⟨before, some (.error err)⟩ :: calls) = returned calls := rfl

/-- The calls have returned messages of the stream, in their order, and each one
has started at a frame or at the end of the stream. -/
structure InStep (e : Endian) (msgs : List (List UInt8)) (calls : List Call) : Prop where
  returned : (returned calls).Sublist msgs
  boundary : ∀ call ∈ calls, ∃ n, call.before = wireFrom e msgs n

/-- What the peer has written with `send_dynamic` is received in step. -/
def Synchronised (κ κ' : Kernel) (e : Endian) (a b : TcpSocket) (msgs : List (List UInt8))
    (maxSizes : List Nat) : Prop :=
  ∃ a' c, sendEach κ e msgs a ⟨0, [], []⟩ = some (a', c) ∧
    InStep e msgs (receiveEach κ' e maxSizes b ⟨0, c.outgoing, []⟩)

/-- Every call but the last one has a limit that admits its message; the first
call is for message `n`. -/
def Admitted (msgs : List (List UInt8)) : Nat → List Nat → Prop
  | _, [] => True
  | _, [_] => True
  | n, maxSize :: maxSizes =>
      (∀ data ∈ msgs[n]?, data.length ≤ maxSize) ∧ Admitted msgs (n + 1) maxSizes

instance decidableAdmitted (msgs : List (List UInt8)) :
    (n : Nat) → (maxSizes : List Nat) → Decidable (Admitted msgs n maxSizes)
  | _, [] => .isTrue trivial
  | _, [_] => .isTrue trivial
  | n, _ :: maxSize :: maxSizes =>
      have := decidableAdmitted msgs (n + 1) (maxSize :: maxSizes)
      inferInstanceAs (Decidable (_ ∧ _))

section Runs

variable {κ : Kernel} {e : Endian} {a b : TcpSocket} {msgs : List (List UInt8)}

/-- The peer's calls put exactly the frames of their messages on the stream. -/
theorem sendEach_frames (hκ : κ.Faultless) (ha : a.isConnected = true) (e : Endian)
    (msgs : List (List UInt8)) (n : Nat) (sent : List UInt8) :
    ∃ m, sendEach κ e msgs a ⟨n, [], sent⟩ =
      some (a, ⟨m, [], sent ++ msgs.flatMap (frame e)⟩) := by
  induction msgs generalizing n sent with
  | nil => exact ⟨n, by simp [sendEach]⟩
  | cons data msgs ih =>
      obtain ⟨_, m, hrun, rfl⟩ :=
        (sendDynamic_writes e ha data).exec hκ false n [] sent
      obtain ⟨m', hrest⟩ := ih m (sent ++ frame e data)
      refine ⟨m', ?_⟩
      rw [List.append_nil] at hrun
      rw [sendEach, hrun, List.flatMap_cons, ← List.append_assoc]
      exact hrest

/-- One call on a frame: the message, or the payload left on the stream. -/
theorem receiveEach_frame (hκ : κ.Faultless) (hb : b.isConnected = true) (e : Endian)
    {data : List UInt8} (hlen : data.length < 2 ^ 32) (maxSize : Nat) (maxSizes : List Nat)
    (following : List UInt8) (n : Nat) (sent : List UInt8) :
    ∃ m, receiveEach κ e (maxSize :: maxSizes) b ⟨n, frame e data ++ following, sent⟩ =
      if data.length ≤ maxSize then
        ⟨frame e data ++ following, some (.ok data)⟩ ::
          receiveEach κ e maxSizes b ⟨m, following, sent⟩
      else
        ⟨frame e data ++ following, some (.error (.tooLarge data.length maxSize))⟩ ::
          receiveEach κ e maxSizes b ⟨m, data ++ following, sent⟩ := by
  by_cases hmax : data.length ≤ maxSize
  · obtain ⟨_, m, hrun, rfl⟩ :=
      (receiveDynamic_reads e hb data hlen hmax).exec hκ false n following sent
    rw [List.append_nil] at hrun
    exact ⟨m, by rw [if_pos hmax, receiveEach, hrun]⟩
  · have hsize := htonl_ofBytes_toBytes e data.length
    rw [Nat.mod_eq_of_lt hlen] at hsize
    have hover : maxSize < e.htonl (e.ofBytes (e.toBytes prefixSize (e.htonl data.length))) := by
      rw [hsize]
      exact Nat.lt_of_not_le hmax
    obtain ⟨_, m, hrun, rfl⟩ := (receiveDynamic_rejects hb (Endian.length_toBytes _ _ _)
      hover).exec hκ false n (data ++ following) sent
    rw [← List.append_assoc, List.append_nil, hsize] at hrun
    refine ⟨m, ?_⟩
    rw [if_neg hmax, receiveEach, frame, hrun]

/-- A call at the end of what the peer has written waits. -/
theorem receiveEach_end (hκ : κ.Faultless) (hb : b.isConnected = true) (e : Endian)
    (maxSize : Nat) (maxSizes : List Nat) (n : Nat) (sent : List UInt8) :
    receiveEach κ e (maxSize :: maxSizes) b ⟨n, [], sent⟩ = [⟨[], none⟩] := by
  obtain ⟨rest, hfirst⟩ := receiveDynamic_waits e hb maxSize
  obtain ⟨k, hk⟩ := hκ n 0
  obtain rfl : k = 0 := Nat.le_zero.mp (κ.le_limit hk)
  have hwait : Program.exec κ b.fd false (receiveDynamic e maxSize b) ⟨n, [], sent⟩ = none := by
    rw [hfirst]
    simp [Program.exec, hk, prefixSize]
  rw [receiveEach, hwait]

/-- A call finds on the stream what the calls before it have left. -/
theorem receiveEach_before (κ : Kernel) (e : Endian) (maxSize : Nat) (maxSizes : List Nat)
    (b : TcpSocket) (c : Connection) {P : List UInt8 → Prop}
    (h : ∀ call ∈ receiveEach κ e (maxSize :: maxSizes) b c, P call.before) : P c.incoming := by
  unfold receiveEach at h
  split at h
  · exact (List.forall_mem_cons.mp h).1
  · exact (List.forall_mem_cons.mp h).1

/-- Inside the payload of a message there is no frame of the stream. -/
theorem append_wireFrom_ne (e : Endian) {data : List UInt8} {n : Nat}
    (hnext : msgs[n]? = some data) (hdata : data ≠ []) (m : Nat) :
    data ++ wireFrom e msgs (n + 1) ≠ wireFrom e msgs m := by
  intro hsame
  have hpos := List.length_pos_iff.mpr hdata
  have hlen := congrArg List.length hsame
  have hframe := congrArg List.length (wireFrom_of_getElem? e msgs hnext)
  simp only [List.length_append, length_frame] at hlen hframe
  rcases Nat.lt_or_ge n m with hlater | hearlier
  · have hshorter := length_wireFrom_antitone e msgs (show n + 1 ≤ m from hlater)
    simp only at hshorter
    omega
  · have hlonger := length_wireFrom_antitone e msgs hearlier
    simp only at hlonger
    omega

theorem Admitted.tail {n maxSize : Nat} {maxSizes : List Nat}
    (h : Admitted msgs n (maxSize :: maxSizes)) : Admitted msgs (n + 1) maxSizes := by
  cases maxSizes with
  | nil => trivial
  | cons next rest => exact h.2

/-- After the last message every limit will do. -/
theorem admitted_of_length_le {n : Nat} (hn : msgs.length ≤ n) (maxSizes : List Nat) :
    Admitted msgs n maxSizes := by
  induction maxSizes generalizing n with
  | nil => trivial
  | cons maxSize maxSizes ih =>
      cases maxSizes with
      | nil => trivial
      | cons next rest =>
          refine ⟨fun data hdata => ?_, ih (hn.trans (Nat.le_succ n))⟩
          rw [List.getElem?_eq_none_iff.mpr hn] at hdata
          simp at hdata

/-- Calls with admitted messages return them one by one. -/
theorem inStep_of_admitted (hκ : κ.Faultless) (hb : b.isConnected = true)
    (hmsgs : ∀ data ∈ msgs, data.length < 2 ^ 32) {maxSizes : List Nat} {n : Nat}
    (h : Admitted msgs n maxSizes) (k : Nat) (sent : List UInt8) :
    (returned (receiveEach κ e maxSizes b ⟨k, wireFrom e msgs n, sent⟩)).Sublist (msgs.drop n) ∧
      ∀ call ∈ receiveEach κ e maxSizes b ⟨k, wireFrom e msgs n, sent⟩,
        ∃ m, call.before = wireFrom e msgs m := by
  induction maxSizes generalizing n k with
  | nil => exact ⟨List.nil_sublist _, by simp [receiveEach]⟩
  | cons maxSize maxSizes ih =>
      cases hnext : msgs[n]? with
      | none =>
          rw [wireFrom_of_getElem?_none e msgs hnext le_rfl, receiveEach_end hκ hb]
          refine ⟨List.nil_sublist _, fun call hcall => ⟨n, ?_⟩⟩
          obtain rfl := List.mem_singleton.mp hcall
          exact (wireFrom_of_getElem?_none e msgs hnext le_rfl).symm
      | some data =>
          have hwire := wireFrom_of_getElem? e msgs hnext
          have hdrop : msgs.drop n = data :: msgs.drop (n + 1) := by
            obtain ⟨hn, rfl⟩ := List.getElem?_eq_some_iff.mp hnext
            exact List.drop_eq_getElem_cons hn
          obtain ⟨m, hcall⟩ := receiveEach_frame hκ hb e (hmsgs data (List.mem_of_getElem? hnext))
            maxSize maxSizes (wireFrom e msgs (n + 1)) k sent
          rw [← hwire] at hcall
          rw [hcall, hdrop]
          by_cases hmax : data.length ≤ maxSize
          · obtain ⟨hreturned, hboundary⟩ := ih h.tail m
            rw [if_pos hmax]
            refine ⟨hreturned.cons_cons data, ?_⟩
            exact List.forall_mem_cons.mpr ⟨⟨n, rfl⟩, hboundary⟩
          · rw [if_neg hmax]
            cases maxSizes with
            | nil =>
                refine ⟨List.nil_sublist _, ?_⟩
                exact List.forall_mem_cons.mpr ⟨⟨n, rfl⟩, by simp [receiveEach]⟩
            | cons next rest => exact absurd (h.1 data hnext) hmax

/-- Calls that all start at a frame have admitted messages. -/
theorem admitted_of_boundary (hκ : κ.Faultless) (hb : b.isConnected = true)
    (hmsgs : ∀ data ∈ msgs, data.length < 2 ^ 32) {maxSizes : List Nat} {n k : Nat}
    {sent : List UInt8}
    (h : ∀ call ∈ receiveEach κ e maxSizes b ⟨k, wireFrom e msgs n, sent⟩,
      ∃ m, call.before = wireFrom e msgs m) :
    Admitted msgs n maxSizes := by
  induction maxSizes generalizing n k with
  | nil => trivial
  | cons maxSize maxSizes ih =>
      cases hnext : msgs[n]? with
      | none => exact admitted_of_length_le (List.getElem?_eq_none_iff.mp hnext) _
      | some data =>
          have hwire := wireFrom_of_getElem? e msgs hnext
          obtain ⟨m, hcall⟩ := receiveEach_frame hκ hb e (hmsgs data (List.mem_of_getElem? hnext))
            maxSize maxSizes (wireFrom e msgs (n + 1)) k sent
          rw [← hwire] at hcall
          rw [hcall] at h
          cases maxSizes with
          | nil => trivial
          | cons next rest =>
              by_cases hmax : data.length ≤ maxSize
              · rw [if_pos hmax] at h
                refine ⟨fun data' hdata' => ?_, ih (List.forall_mem_cons.mp h).2⟩
                rw [hnext] at hdata'
                obtain rfl := Option.some.inj hdata'
                exact hmax
              · -- the next call starts inside the payload
                rw [if_neg hmax] at h
                obtain ⟨j, hj⟩ := receiveEach_before κ e next rest b
                  ⟨m, data ++ wireFrom e msgs (n + 1), sent⟩
                  (P := fun before => ∃ j, before = wireFrom e msgs j) (List.forall_mem_cons.mp h).2
                refine absurd hj (append_wireFrom_ne e hnext ?_ j)
                rintro rfl
                exact hmax (Nat.zero_le _)

/-- The receiver keeps to the frames of the stream exactly when every call but
the last one admits its message. -/
theorem synchronised_iff {κ' : Kernel} (hκ : κ.Faultless) (hκ' : κ'.Faultless)
    (ha : a.isConnected = true) (hb : b.isConnected = true) (e : Endian)
    (hmsgs : ∀ data ∈ msgs, data.length < 2 ^ 32) (maxSizes : List Nat) :
    Synchronised κ κ' e a b msgs maxSizes ↔ Admitted msgs 0 maxSizes := by
  obtain ⟨m, hsent⟩ := sendEach_frames hκ ha e msgs 0 []
  have hwire : [] ++ msgs.flatMap (frame e) = wireFrom e msgs 0 := rfl
  rw [hwire] at hsent
  constructor
  · rintro ⟨a', c, hrun, hstep⟩
    obtain ⟨-, rfl⟩ := Prod.mk.inj (Option.some.inj (hsent.symm.trans hrun))
    exact admitted_of_boundary hκ' hb hmsgs hstep.boundary
  · intro hadmitted
    obtain ⟨hreturned, hboundary⟩ := inStep_of_admitted (e := e) hκ' hb hmsgs hadmitted 0 []
    exact ⟨a, _, hsent, hreturned, hboundary⟩

theorem synchronised_iff_two :
    Synchronised .whole .bytewise .little ⟨3, true⟩ ⟨4, true⟩ [[7], [8, 9]] [5, 1] :=
  (synchronised_iff Kernel.whole_faultless Kernel.bytewise_faultless rfl rfl .little
    (by decide) [5, 1]).mpr (by decide)

/-- A rejected payload that is itself a frame is received as a message. -/
theorem receiveEach_forged (hκ : κ.Faultless) (hb : b.isConnected = true) (e : Endian)
    (data : List UInt8) (hlen : data.length < 2 ^ 31) (maxSize maxSize' : Nat)
    (hmax : maxSize < (frame e data).length) (hmax' : data.length ≤ maxSize')
    (following : List UInt8) (n : Nat) (sent : List UInt8) :
    returned (receiveEach κ e [maxSize, maxSize'] b
      ⟨n, frame e (frame e data) ++ following, sent⟩) = [data] := by
  have hframe := length_frame e data
  obtain ⟨m, hfirst⟩ := receiveEach_frame hκ hb e (show (frame e data).length < 2 ^ 32 by omega)
    maxSize [maxSize'] following n sent
  obtain ⟨m', hsecond⟩ := receiveEach_frame hκ hb e (show data.length < 2 ^ 32 by omega)
    maxSize' [] following m sent
  rw [hfirst, if_neg (Nat.not_le.mpr hmax), hsecond, if_pos hmax', returned_cons_error,
    returned_cons_ok, receiveEach, returned_nil]

/-- The peer sends one message, and the receiver gets one that was never sent. -/
theorem not_synchronised_forged :
    ¬Synchronised .whole .whole .little ⟨3, true⟩ ⟨4, true⟩ [[0, 0, 0, 1, 0, 0, 0, 0, 9]]
      [5, 5] := by
  rintro ⟨a', c, hrun, hstep⟩
  obtain ⟨m, hsent⟩ := sendEach_frames (a := ⟨3, true⟩) Kernel.whole_faultless rfl .little
    [[0, 0, 0, 1, 0, 0, 0, 0, 9]] 0 []
  obtain ⟨-, rfl⟩ := Prod.mk.inj (Option.some.inj (hsent.symm.trans hrun))
  have hreturned := hstep.returned
  have hforged := receiveEach_forged (b := ⟨4, true⟩) Kernel.whole_faultless rfl .little [9]
    (by decide) 5 5 (by decide) (by decide) [] 0 []
  have hwire : frame .little (frame .little [9]) ++ [] =
      [] ++ [[0, 0, 0, 1, 0, 0, 0, 0, 9]].flatMap (frame .little) := by decide
  rw [hwire] at hforged
  rw [hforged] at hreturned
  revert hreturned
  decide

end Runs
end Rejection
end DocaStdexec
