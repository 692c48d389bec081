import DocaStdexec.Common.Framing
import DocaStdexec.Lib.Machine

/-!
# Half a frame on the stream

One `tcp_socket` whose caller goes on after calls that throw, on a network where a
`::send` may accept any part of what it is offered, may accept nothing, and may
fail.  A failed `::send` disconnects the socket, so nothing follows the part of the
frame that it has left on the stream.  A `::send` that would block ends the call as
well, but the socket stays connected: the next call puts its frame behind the part.

`NoHalfFrame` says what the stream should look like.  It is an invariant of the
runs that make no call after such a stall.
-/

namespace DocaStdexec
namespace HalfFrame

open Lib
open Tcp Tcp.TcpSocket

/-- A `send_dynamic` that has ended: its payload, the bytes that it has put on the
stream, and what it gave. -/
structure Call where
  data : List UInt8
  put : List UInt8
  outcome : Except SocketError PUnit

/-- The call has not thrown. -/
def Call.returned (c : Call) : Bool := c.outcome.isOk

/-- The call has thrown with a part of its frame on the stream. -/
def Call.CutShort (c : Call) : Prop := c.returned = false ∧ c.put ≠ []

/-- The socket between two calls, or a call that waits in a `::send`. -/
inductive Peer
  | idle (socket : TcpSocket)
  | running (data put : List UInt8) (p : Program (Except SocketError PUnit × TcpSocket))

/-- The bytes that the running call has put on the stream. -/
def Peer.put : Peer → List UInt8
  | idle _ => []
  | running _ put _ => put

structure State where
  peer : Peer
  /-- The calls that have ended, oldest first. -/
  calls : List Call
  /-- A `::send` has moved nothing, without failing, inside a frame. -/
  stalled : Bool

/-- Everything that has been put on the stream. -/
def State.stream (s : State) : List UInt8 := s.calls.flatMap Call.put ++ s.peer.put

/-- A call ends with the last step of its program. -/
def State.settle (s : State) (data put : List UInt8) :
    Program (Except SocketError PUnit × TcpSocket) → State
  | .ret (r, socket) => { s with peer := .idle socket, calls := s.calls ++ [⟨data, put, r⟩] }
  | .call op next => { s with peer := .running data put (.call op next) }

/-- A `::send` that moved nothing stalls the stream when it is inside a frame. -/
def State.stall (s : State) (put : List UInt8) (r : Transfer Nat) : State :=
  { s with stalled := s.stalled || decide (r.halt = some .stalled ∧ put ≠ []) }

/-- How many bytes a transfer has moved. -/
def count : Transfer Nat → Nat
  | .done k => k
  | .failed _ => 0

theorem count_of_halt {r : Transfer Nat} {h : Halt} (hr : r.halt = some h) : count r = 0 := by
  cases r with
  | done k =>
      cases k with
      | zero => rfl
      | succ k => simp [Transfer.halt] at hr
  | failed err => rfl

inductive Event
  /-- The caller gives a payload to `send_dynamic`. -/
  | sendDynamic (data : List UInt8)
  /-- The outcome of the `::send` that the running call waits in. -/
  | send (r : Transfer Nat)

section System

variable (e : Endian) (a : TcpSocket)

def State.init : State := ⟨.idle a, [], false⟩

def step (s : State) : Event → Option State
  | .sendDynamic data =>
      match s.peer with
      | .idle socket => some (s.settle data [] (sendDynamic e data socket))
      | .running _ _ _ => none
  | .send r =>
      match s.peer with
      | .running data put (.call (.send fd bytes) next) =>
          if fd = a.fd ∧ count r ≤ bytes.length then
            some ((s.stall put r).settle data (put ++ bytes.take (count r)) (next r))
          else none
      | _ => none

def machine : Machine State Event := ⟨State.init a, step e a⟩

/-- Everything a step can do. -/
inductive Effect (s : State) : Event → State → Prop
  | sendDynamic {data : List UInt8} {socket : TcpSocket} (hidle : s.peer = .idle socket) :
      Effect s (.sendDynamic data) (s.settle data [] (sendDynamic e data socket))
  | send {r : Transfer Nat} {data put bytes : List UInt8}
      {next : Transfer Nat → Program (Except SocketError PUnit × TcpSocket)}
      (hrunning : s.peer = .running data put (.call (.send a.fd bytes) next))
      (hcount : count r ≤ bytes.length) :
      Effect s (.send r)
        ((s.stall put r).settle data (put ++ bytes.take (count r)) (next r))

theorem step_effect {s t : State} {ev : Event} (hstep : step e a s ev = some t) :
    Effect e a s ev t := by
  cases ev with
  | sendDynamic data =>
      simp only [step] at hstep
      split at hstep
      · next hidle => exact Option.some.inj hstep ▸ .sendDynamic hidle
      · simp at hstep
  | send r =>
      simp only [step] at hstep
      split at hstep
      · next hrunning =>
          obtain ⟨⟨rfl, hcount⟩, hsome⟩ := Option.ite_none_right_eq_some.mp hstep
          exact Option.some.inj hsome ▸ .send hrunning hcount
      · simp at hstep

/-- The frames of the calls that returned. -/
def frames (calls : List Call) : List UInt8 :=
  (calls.filter Call.returned).flatMap fun c => frame e c.data

/-- A call that has thrown, or the running one, has put `part` of its frame. -/
def State.LeftBehind (s : State) (data part : List UInt8) : Prop :=
  (∃ c ∈ s.calls, c.CutShort ∧ c.data = data ∧ c.put = part) ∨ ∃ p, s.peer = .running data part p

/-- The stream carries the frames of the calls that returned and at most a part of
one more frame, and nothing follows a part that a call has left behind. -/
structure NoHalfFrame (s : State) : Prop where
  framed : ∃ data part, s.stream = frames e s.calls ++ part ∧
    part <+: frame e data ∧ part ≠ frame e data ∧ (part = [] ∨ s.LeftBehind data part)
  ended : s.calls.Pairwise fun c d => c.CutShort → d.put = []
  running : ∀ c ∈ s.calls, c.CutShort → s.peer.put = []

/-- A call that has put its whole frame on the stream, or nothing at all. -/
def Whole (c : Call) : Prop :=
  c.put = if c.returned then frame e c.data else []

/-- The invariant. -/
inductive Inv : State → Prop
  | idle {calls : List Call} {socket : TcpSocket}
      (hsocket : socket = a ∨ socket.isConnected = false)
      (hcalls : ∀ c ∈ calls, Whole e c) : Inv ⟨.idle socket, calls, false⟩
  | running {calls : List Call} {data put rest : List UInt8}
      {p : Program (Except SocketError PUnit × TcpSocket)}
      (hframe : put ++ rest = frame e data) (hrest : rest ≠ [])
      (hp : Upload a.fd (fun r => r = (.ok ⟨⟩, a)) (Halted a) rest p)
      (hcalls : ∀ c ∈ calls, Whole e c) : Inv ⟨.running data put p, calls, false⟩
  /-- `c` has left a part of its frame behind: nothing can follow, unless its
  `::send` would have blocked. -/
  | half {before after : List Call} {c : Call} {socket : TcpSocket} {stalled : Bool}
      (hbefore : ∀ d ∈ before, Whole e d) (hc : c.CutShort)
      (hpart : c.put <+: frame e c.data) (hproper : c.put ≠ frame e c.data)
      (hafter : ∀ d ∈ after, d.returned = false ∧ d.put = [])
      (hsocket : stalled = false → socket.isConnected = false)
      (hstalled : stalled = true → socket = a) : Inv ⟨.idle socket, before ++ c :: after, stalled⟩

variable {e a}

theorem inv_init : Inv e a (State.init a) := .idle (.inl rfl) (by simp)

/-! ## The invariant gives the property -/

theorem Whole.not_cutShort {c : Call} (h : Whole e c) : ¬c.CutShort := by
  rintro ⟨hthrown, hput⟩
  rw [Whole, if_neg (by simp [hthrown])] at h
  exact hput h

theorem flatMap_put_of_whole {calls : List Call} (h : ∀ c ∈ calls, Whole e c) :
    calls.flatMap Call.put = frames e calls := by
  induction calls with
  | nil => rfl
  | cons c calls ih =>
      obtain ⟨hc, hcalls⟩ := List.forall_mem_cons.mp h
      rw [List.flatMap_cons, ih hcalls, hc, frames, frames]
      cases hreturned : c.returned <;> simp [hreturned]

theorem frames_append (before after : List Call) :
    frames e (before ++ after) = frames e before ++ frames e after := by
  simp [frames]

theorem frames_of_thrown {calls : List Call} (h : ∀ c ∈ calls, c.returned = false) :
    frames e calls = [] := by
  rw [frames, List.filter_eq_nil_iff.mpr (fun c hc => by simp [h c hc]), List.flatMap_nil]

/-- Calls that have put nothing or their whole frame leave the way free. -/
theorem pairwise_of_whole {calls : List Call} (h : ∀ c ∈ calls, Whole e c) :
    calls.Pairwise fun c d => c.CutShort → d.put = [] := by
  refine List.pairwise_of_forall_mem_list fun c hc d _ hcut => ?_
  exact absurd hcut (h c hc).not_cutShort

theorem Inv.noHalfFrame {s : State} (h : Inv e a s) : NoHalfFrame e s := by
  cases h with
  | @idle calls socket hsocket hcalls =>
      refine ⟨⟨[], [], ?_, List.nil_prefix, (frame_ne_nil e []).symm, .inl rfl⟩,
        pairwise_of_whole hcalls, fun _ _ _ => rfl⟩
      simp [State.stream, Peer.put, flatMap_put_of_whole hcalls]
  | @running calls data put rest p hframe hrest hp hcalls =>
      refine ⟨⟨data, put, ?_, ⟨rest, hframe⟩, ?_, .inr (.inr ⟨p, rfl⟩)⟩,
        pairwise_of_whole hcalls, fun c hc hcut => ?_⟩
      · simp [State.stream, Peer.put, flatMap_put_of_whole hcalls]
      · rw [← hframe]
        simpa using hrest.symm
      · exact absurd hcut (hcalls c hc).not_cutShort
  | @half before after c socket stalled hbefore hc hpart hproper hafter _ _ =>
      have hthrown : ∀ d ∈ c :: after, d.returned = false :=
        List.forall_mem_cons.mpr ⟨hc.1, fun d hd => (hafter d hd).1⟩
      have hnothing : after.flatMap Call.put = [] :=
        List.flatMap_eq_nil_iff.mpr fun d hd => (hafter d hd).2
      have hleft : State.LeftBehind ⟨.idle socket, before ++ c :: after, stalled⟩ c.data c.put :=
        .inl ⟨c, by simp, hc, rfl, rfl⟩
      refine ⟨⟨c.data, c.put, ?_, hpart, hproper, .inr hleft⟩, ?_, fun _ _ _ => rfl⟩
      · simp [State.stream, Peer.put, frames_append, flatMap_put_of_whole hbefore,
          frames_of_thrown hthrown, hnothing]
      · refine List.pairwise_append.mpr ⟨pairwise_of_whole hbefore, ?_, fun d hd _ _ hcut => ?_⟩
        · refine List.pairwise_cons.mpr ⟨fun d hd _ => (hafter d hd).2, ?_⟩
          exact List.pairwise_of_forall_mem_list fun _ _ d hd _ => (hafter d hd).2
        · exact absurd hcut (hbefore d hd).not_cutShort

/-! ## The invariant along a run -/

/-- The caller makes no call once a `::send` has stalled inside a frame. -/
def Cautious (s : State) : Event → Prop
  | .sendDynamic _ => s.stalled = false
  | .send _ => True

theorem settle_idle (s : State) (data put : List UInt8) (r : Except SocketError PUnit)
    (socket : TcpSocket) :
    s.settle data put (.ret (r, socket)) =
      ⟨.idle socket, s.calls ++ [⟨data, put, r⟩], s.stalled⟩ := rfl

theorem stall_of_moved {s : State} {put : List UInt8} {r : Transfer Nat} (hr : r.halt = none) :
    s.stall put r = s := by
  simp [State.stall, hr]

theorem forall_mem_concat {calls : List Call} {P : Call → Prop} {c : Call}
    (h : ∀ d ∈ calls, P d) (hc : P c) : ∀ d ∈ calls ++ [c], P d :=
  List.forall_mem_append.mpr ⟨h, List.forall_mem_singleton.mpr hc⟩

/-- A program that writes on with what it has left keeps the invariant. -/
theorem inv_settle {calls : List Call} {peer : Peer} {data put rest : List UInt8}
    {p : Program (Except SocketError PUnit × TcpSocket)} (hframe : put ++ rest = frame e data)
    (hp : Upload a.fd (fun r => r = (.ok ⟨⟩, a)) (Halted a) rest p)
    (hcalls : ∀ c ∈ calls, Whole e c) :
    Inv e a (State.settle ⟨peer, calls, false⟩ data put p) := by
  cases p with
  | ret x =>
      obtain ⟨rfl, rfl⟩ := hp.of_ret
      rw [List.append_nil] at hframe
      exact .idle (.inl rfl) (forall_mem_concat hcalls hframe)
  | call op next => exact .running hframe hp.ne_nil_of_call hp hcalls

/-- A call that a halt has ended keeps the invariant. -/
theorem inv_halt {calls : List Call} {peer : Peer} {data put rest : List UInt8}
    {r : Transfer Nat} {h : Halt} {x : Except SocketError PUnit × TcpSocket}
    (hframe : put ++ rest = frame e data) (hrest : rest ≠ []) (hr : r.halt = some h)
    (hx : Halted a h x) (hcalls : ∀ c ∈ calls, Whole e c) :
    Inv e a ((State.stall ⟨peer, calls, false⟩ put r).settle data put (.ret x)) := by
  obtain ⟨result, socket⟩ := x
  have hthrown : result.isOk = false := by
    cases h with
    | stalled => rw [(Prod.mk.inj hx).1]; rfl
    | failed => rw [(Prod.mk.inj hx).1]; rfl
  have hfailed : h = .failed → socket.isConnected = false := by
    rintro rfl
    rw [(Prod.mk.inj hx).2]
    rfl
  have hstalled : h = .stalled → socket = a := by
    rintro rfl
    exact (Prod.mk.inj hx).2
  rw [settle_idle]
  by_cases hput : put = []
  · -- nothing is left behind
    subst hput
    have hsocket : socket = a ∨ socket.isConnected = false := by
      cases h with
      | stalled => exact .inl (hstalled rfl)
      | failed => exact .inr (hfailed rfl)
    have hwhole : Whole e ⟨data, [], result⟩ := by simp [Whole, Call.returned, hthrown]
    simpa [State.stall] using Inv.idle hsocket (forall_mem_concat hcalls hwhole)
  · refine .half hcalls ⟨hthrown, hput⟩ ⟨rest, hframe⟩ ?_ (by simp) (fun hfree => ?_)
      fun hstall => ?_
    · rw [← hframe]
      simpa using hrest.symm
    · cases h with
      | stalled => simp [State.stall, hr, hput] at hfree
      | failed => exact hfailed rfl
    · cases h with
      | stalled => exact hstalled rfl
      | failed => simp [State.stall, hr] at hstall

/-- A call on a socket that is not connected keeps the invariant. -/
theorem inv_notConnected {s : State} {data : List UInt8} {socket : TcpSocket}
    (h : Inv e a s) (hfree : s.stalled = false) (hidle : s.peer = .idle socket)
    (hsocket : socket.isConnected = false) :
    Inv e a (s.settle data [] (sendDynamic e data socket)) := by
  rw [sendDynamic_notConnected e hsocket, settle_idle]
  cases h with
  | idle _ hcalls =>
      exact .idle (.inr hsocket) (forall_mem_concat hcalls (by simp [Whole, Call.returned]; rfl))
  | running => cases hidle
  | @half before after c _ stalled hbefore hc hpart hproper hafter _ hstalled =>
      obtain rfl := Peer.idle.inj hidle
      rw [List.append_assoc, List.cons_append]
      exact .half hbefore hc hpart hproper (forall_mem_concat hafter ⟨rfl, rfl⟩)
        (fun _ => hsocket) hstalled

theorem Inv.step {s t : State} {ev : Event} (h : Inv e a s) (hcautious : Cautious s ev)
    (hstep : step e a s ev = some t) : Inv e a t := by
  cases step_effect e a hstep with
  | @sendDynamic data socket hidle =>
      cases hconnected : socket.isConnected with
      | false => exact inv_notConnected h hcautious hidle hconnected
      | true =>
          -- only a socket that nothing has halted is connected
          cases h with
          | @idle calls _ hsocket hcalls =>
              obtain rfl := Peer.idle.inj hidle
              obtain rfl := hsocket.resolve_right (by simp [hconnected])
              exact inv_settle rfl (sendDynamic_uploads e hconnected data) hcalls
          | running => cases hidle
          | half _ _ _ _ _ hsocket _ =>
              obtain rfl := Peer.idle.inj hidle
              exact absurd (hsocket hcautious) (by simp [hconnected])
  | @send r data put bytes next hrunning hcount =>
      cases h with
      | idle => cases hrunning
      | half => cases hrunning
      | @running calls _ _ rest _ hframe hrest hp hcalls =>
          obtain ⟨rfl, rfl, rfl⟩ := Peer.running.inj hrunning
          cases hp with
          | send hdata hinto hdone hhalt =>
              cases hr : r.halt with
              | none =>
                  obtain ⟨k, rfl, hk⟩ := Transfer.halt_eq_none hr
                  obtain ⟨tail, rfl⟩ := hinto
                  have hlen : k ≤ bytes.length := hcount
                  have hrest' := hdone k hk hlen
                  rw [List.drop_append_of_le_length hlen] at hrest'
                  rw [stall_of_moved hr]
                  refine inv_settle ?_ hrest' hcalls
                  have hcut : bytes.take (count (.done k)) ++ (bytes.drop k ++ tail) =
                      bytes ++ tail := by
                    rw [count, ← List.append_assoc, List.take_append_drop]
                  rw [← hframe, List.append_assoc, hcut]
              | some x =>
                  obtain ⟨y, hret, hy⟩ := hhalt r x hr
                  have hnothing : bytes.take (count r) = [] := by
                    rw [count_of_halt hr, List.take_zero]
                  rw [hret, hnothing, List.append_nil]
                  exact inv_halt hframe hrest hr hy hcalls

@[simp] theorem settle_stalled (s : State) (data put : List UInt8)
    (p : Program (Except SocketError PUnit × TcpSocket)) :
    (s.settle data put p).stalled = s.stalled := by
  cases p with
  | ret x => rfl
  | call op next => rfl

/-- Where no `::send` stalls, every caller is cautious. -/
theorem guarded_of_moving {s : State} {es : List Event} (hs : s.stalled = false)
    (hes : ∀ r, .send r ∈ es → r.halt ≠ some .stalled) :
    (machine e a).Guarded Cautious s es := by
  induction es generalizing s with
  | nil => trivial
  | cons ev es ih =>
      refine ⟨?_, fun t hstep => ih ?_ fun r hr => hes r (List.mem_cons_of_mem _ hr)⟩
      · cases ev with
        | sendDynamic data => exact hs
        | send r => trivial
      · cases step_effect e a hstep with
        | sendDynamic hidle => rw [settle_stalled, hs]
        | @send r _ _ _ _ hrunning hcount =>
            have hmoves := hes r List.mem_cons_self
            simp [State.stall, hs, hmoves]

/-- In a run without a call after a stall inside a frame, the stream never carries
more than complete frames and one part behind them. -/
theorem always_noHalfFrame {es : List Event}
    (hcautious : (machine e a).Guarded Cautious (State.init a) es) :
    (machine e a).Always (NoHalfFrame e) (State.init a) es :=
  (Machine.always_of_guarded (fun _ _ _ h hc hstep => h.step hc hstep) inv_init hcautious).mono
    fun _ h => h.noHalfFrame

theorem always_noHalfFrame_failed :
    (machine .little ⟨3, true⟩).Always (NoHalfFrame .little) (State.init ⟨3, true⟩)
      [.sendDynamic [7], .send (.done 1), .send (.failed (.other 32)), .sendDynamic [8]] :=
  always_noHalfFrame (guarded_of_moving rfl (by simp [Transfer.halt, Errno.wouldBlock]))

/-! ## A call after a stall -/

/-- A call on a connected socket puts its first byte on the stream and waits. -/
theorem run_first_byte (ha : a.isConnected = true) {s : State} (hidle : s.peer = .idle a)
    (data : List UInt8) :
    ∃ byte bytes next,
      (machine e a).run s [.sendDynamic data, .send (.done 1)] =
        some { s with peer := .running data [byte] (.call (.send a.fd bytes) next) } ∧
      ∀ r h, r.halt = some h → ∃ x, next r = .ret x ∧ Halted a h x := by
  have hlen := length_frame e data
  obtain ⟨bytes, next, hcall, hbytes, hinto, hdone, -⟩ :=
    (sendDynamic_uploads e ha data).of_ne_nil (frame_ne_nil e data)
  have hpos := List.length_pos_iff.mpr hbytes
  have hmore : (frame e data).drop 1 ≠ [] := by
    apply List.ne_nil_of_length_pos
    rw [List.length_drop]
    omega
  obtain ⟨bytes', next', hcall', -, -, -, hhalt⟩ := (hdone 1 le_rfl hpos).of_ne_nil hmore
  obtain ⟨byte, rest, rfl⟩ := List.exists_cons_of_ne_nil hbytes
  refine ⟨byte, bytes', next', ?_, hhalt⟩
  have hstall (t : State) : t.stall [] (.done 1) = t := stall_of_moved rfl
  have hfirst : step e a s (.sendDynamic data) =
      some { s with peer := .running data [] (.call (.send a.fd (byte :: rest)) next) } := by
    simp only [step, hidle, hcall, State.settle]
  have hsecond : step e a
      { s with peer := .running data [] (.call (.send a.fd (byte :: rest)) next) }
      (.send (.done 1)) =
        some { s with peer := .running data [byte] (.call (.send a.fd bytes') next') } := by
    simp only [step, count, hstall, hcall', State.settle]
    exact if_pos ⟨trivial, hpos⟩
  rw [Machine.run_cons, show (machine e a).step = step e a from rfl, hfirst, Option.bind_some,
    Machine.run_singleton]
  exact hsecond

/-- When a part of a frame has been left behind and the socket is still connected,
the next call can put a byte behind it. -/
theorem exists_not_noHalfFrame (ha : a.isConnected = true) {s : State}
    (hidle : s.peer = .idle a) {c : Call} (hc : c ∈ s.calls) (hcut : c.CutShort)
    (data : List UInt8) :
    ∃ t, (machine e a).run s [.sendDynamic data, .send (.done 1)] = some t ∧
      ¬NoHalfFrame e t := by
  obtain ⟨byte, bytes, next, hrun, -⟩ := run_first_byte (e := e) ha hidle data
  refine ⟨_, hrun, fun h => ?_⟩
  have hput := h.running c hc hcut
  simp [Peer.put] at hput

/-- A `::send` that would block inside a frame leaves a part of it behind. -/
theorem run_stall (ha : a.isConnected = true) {s : State} (hidle : s.peer = .idle a)
    (data : List UInt8) :
    ∃ t c, (machine e a).run s [.sendDynamic data, .send (.done 1), .send (.failed .eagain)] =
        some t ∧ t.peer = .idle a ∧ c ∈ t.calls ∧ c.CutShort := by
  obtain ⟨byte, bytes, next, hrun, hhalt⟩ := run_first_byte (e := e) ha hidle data
  obtain ⟨_, hret, rfl⟩ := hhalt (.failed .eagain) .stalled rfl
  let c : Call := ⟨data, [byte], .error .closedDuringSendAll⟩
  have hstall : (machine e a).run
      { s with peer := .running data [byte] (.call (.send a.fd bytes) next) }
      [.send (.failed .eagain)] = some ⟨.idle a, s.calls ++ [c], true⟩ := by
    simp [machine, step, count, hret, settle_idle, State.stall, Transfer.halt, Errno.wouldBlock, c]
  exact ⟨_, c, (machine e a).run_trans hrun hstall, rfl, by simp, rfl, by simp [c]⟩

/-- The second payload is sent behind the first byte of the first frame. -/
theorem not_always_noHalfFrame :
    ¬(machine .little ⟨3, true⟩).Always (NoHalfFrame .little) (State.init ⟨3, true⟩)
      ([.sendDynamic [7], .send (.done 1), .send (.failed .eagain)] ++
        [.sendDynamic [8], .send (.done 1)]) := by
  obtain ⟨s, c, hrun, hidle, hc, hcut⟩ := run_stall (e := .little) (a := ⟨3, true⟩) rfl
    (s := State.init ⟨3, true⟩) rfl [7]
  obtain ⟨t, hlater, hbad⟩ := exists_not_noHalfFrame (e := .little) rfl hidle hc hcut [8]
  exact Machine.not_always_of_run (Machine.run_trans _ hrun hlater) hbad

end System
end HalfFrame
end DocaStdexec
