import DocaStdexec.Lib.Machine
import DocaStdexec.Lib.Socket
import Mathlib.Logic.Function.Basic

/-!
# Two programs over one connection

The ends of a connection run one program each.  Each direction buffers a bounded
number of bytes: a blocking `::send` moves some that fit and waits when none
fits, a blocking `::recv` takes some that are there and waits when none is.

For two programs that write a fixed byte string first and then read the other's,
`Inv.of_ret` says what they agree on and `exists_stuck_iff` says exactly when they
can block each other for ever: when neither direction holds all that is written
into it.
-/

namespace DocaStdexec
namespace Lib

/-- The two ends. -/
inductive Side
  | a
  | b
  deriving DecidableEq

namespace Side

def other : Side → Side
  | a => b
  | b => a

@[simp] theorem other_other (i : Side) : i.other.other = i := by cases i <;> rfl

@[simp] theorem other_ne (i : Side) : i.other ≠ i := by cases i <;> decide

@[simp] theorem ne_other (i : Side) : i ≠ i.other := by cases i <;> decide

theorem eq_or_eq_other (i j : Side) : j = i ∨ j = i.other := by cases i <;> cases j <;> decide

end Side

/-- The descriptors, how much each end may have in transit, and the programs. -/
structure Duplex (α : Type) where
  fd : Side → Int
  capacity : Side → Nat
  program : Side → Program α

namespace Duplex

structure State (α : Type) where
  program : Side → Program α
  /-- What the end has sent and the other end has not taken. -/
  transit : Side → List UInt8
  /-- What the end has taken. -/
  consumed : Side → List UInt8

inductive Event
  | send (i : Side) (k : Nat)
  | recv (i : Side) (k : Nat)
  deriving DecidableEq

variable {α : Type} (d : Duplex α)

def State.init : State α := ⟨d.program, fun _ => [], fun _ => []⟩

/-- One transfer of one end. -/
def step (s : State α) : Event → Option (State α)
  | .send i k =>
      if (s.transit i).length + k ≤ d.capacity i then
        ((s.program i).accept (d.fd i) k).map fun (bytes, q) =>
          { s with
            program := Function.update s.program i q
            transit := Function.update s.transit i (s.transit i ++ bytes) }
      else none
  | .recv i k =>
      ((s.program i).deliver (d.fd i) k (s.transit i.other)).map fun q =>
        { program := Function.update s.program i q
          transit := Function.update s.transit i.other ((s.transit i.other).drop k)
          consumed := Function.update s.consumed i
            (s.consumed i ++ (s.transit i.other).take k) }

def machine : Machine (State α) Event := ⟨State.init d, step d⟩

/-- Some end has not returned, and nothing can happen. -/
def Stuck (s : State α) : Prop :=
  (∃ i, ∀ r, s.program i ≠ .ret r) ∧ ∀ ev, step d s ev = none

/-- End `i` has still `out` to write and `inn` to read. -/
structure Owes (wire : Side → List UInt8) (Q : Side → α → Prop) (s : State α) (i : Side)
    (out inn : List UInt8) : Prop where
  exchange : Exchange (d.fd i) (Q i) out inn (s.program i)
  written : wire i = s.consumed i.other ++ (s.transit i ++ out)
  read : wire i.other = s.consumed i ++ inn
  room : (s.transit i).length ≤ d.capacity i

/-- Both ends are where a writer of `wire i` and reader of `wire i.other` can be. -/
def Inv (wire : Side → List UInt8) (Q : Side → α → Prop) (s : State α) : Prop :=
  ∀ i, ∃ out inn, Owes d wire Q s i out inn

variable {d} {wire : Side → List UInt8} {Q : Side → α → Prop}

/-- The two readings of what is on the way to end `i`. -/
theorem Owes.transit_append {s : State α} {i : Side} {out inn out' inn' : List UInt8}
    (h : Owes d wire Q s i out inn) (h' : Owes d wire Q s i.other out' inn') :
    s.transit i.other ++ out' = inn := by
  have hread := h.read
  rw [h'.written, Side.other_other] at hread
  exact List.append_cancel_left hread

theorem inv_init
    (hprogram : ∀ i, Exchange (d.fd i) (Q i) (wire i) (wire i.other) (d.program i)) :
    Inv d wire Q (State.init d) :=
  fun i => ⟨wire i, wire i.other, hprogram i, by simp [State.init], by simp [State.init],
    Nat.zero_le _⟩

/-- A step of end `i` by a `::send` of `k` bytes. -/
theorem Inv.send {s : State α} {i : Side} {k : Nat} {p : Program α} {bytes out inn : List UInt8}
    (h : Inv d wire Q s) (howes : Owes d wire Q s i out inn)
    (hroom : (s.transit i).length + k ≤ d.capacity i)
    (haccept : (s.program i).accept (d.fd i) k = some (bytes, p)) :
    Inv d wire Q
      { s with
        program := Function.update s.program i p
        transit := Function.update s.transit i (s.transit i ++ bytes) } := by
  obtain ⟨hbytes, out', rfl, hrest⟩ := howes.exchange.of_accept haccept
  intro j
  obtain rfl | rfl := i.eq_or_eq_other j
  · refine ⟨out', inn, ⟨by simpa using hrest, ?_, howes.read, by simpa [hbytes] using hroom⟩⟩
    simpa using howes.written
  · obtain ⟨outj, innj, hj⟩ := h i.other
    refine ⟨outj, innj, ⟨by simpa using hj.exchange, ?_, hj.read, by simpa using hj.room⟩⟩
    simpa using hj.written

theorem Inv.recv {s : State α} {i : Side} {k : Nat} {p : Program α} (h : Inv d wire Q s)
    (hdeliver : (s.program i).deliver (d.fd i) k (s.transit i.other) = some p) :
    Inv d wire Q
      { program := Function.update s.program i p
        transit := Function.update s.transit i.other ((s.transit i.other).drop k)
        consumed := Function.update s.consumed i
          (s.consumed i ++ (s.transit i.other).take k) } := by
  obtain ⟨out, inn, howes⟩ := h i
  obtain ⟨out', inn', howes'⟩ := h i.other
  have hstream : s.transit i.other ++ out' = inn ++ [] := by
    simpa using howes.transit_append howes'
  obtain ⟨rfl, -, -, -, htake, hrest⟩ := howes.exchange.of_deliver hdeliver hstream
  intro j
  obtain rfl | rfl := i.eq_or_eq_other j
  · refine ⟨[], inn.drop k, ⟨by simpa using hrest, ?_, ?_, by simpa using howes.room⟩⟩
    · simpa using howes.written
    · simpa [htake] using howes.read
  · refine ⟨out', inn', ⟨by simpa using howes'.exchange, ?_, ?_, ?_⟩⟩
    · have hcut := List.take_append_drop k (s.transit i.other)
      simp only [Side.other_other, Function.update_self, List.append_assoc]
      rw [← List.append_assoc (List.take _ _), hcut]
      simpa using howes'.written
    · simpa using howes'.read
    · simpa using howes'.room.trans' (Nat.sub_le _ _)

theorem Inv.step {s t : State α} {ev : Event} (h : Inv d wire Q s)
    (hstep : step d s ev = some t) : Inv d wire Q t := by
  cases ev with
  | send i k =>
      obtain ⟨hroom, hmap⟩ := Option.ite_none_right_eq_some.mp hstep
      obtain ⟨⟨bytes, p⟩, haccept, rfl⟩ := Option.map_eq_some_iff.mp hmap
      obtain ⟨out, inn, howes⟩ := h i
      exact h.send howes hroom haccept
  | recv i k =>
      obtain ⟨p, hdeliver, rfl⟩ := Option.map_eq_some_iff.mp hstep
      exact h.recv hdeliver

theorem inv_of_reachable
    (hprogram : ∀ i, Exchange (d.fd i) (Q i) (wire i) (wire i.other) (d.program i))
    {s : State α} (hs : (machine d).Reachable s) : Inv d wire Q s :=
  hs.invariant (inv_init hprogram) fun _ _ _ h hstep => h.step hstep

/-! ## Agreement -/

/-- An end that has returned has the result that its exchange promises. -/
theorem Inv.of_ret {s : State α} (h : Inv d wire Q s) {i : Side} {r : α}
    (hret : s.program i = .ret r) : Q i r := by
  obtain ⟨out, inn, howes⟩ := h i
  exact (hret ▸ howes.exchange).of_ret.2.2

/-- No end takes a byte beyond what the other writes. -/
theorem Inv.consumed_prefix {s : State α} (h : Inv d wire Q s) (i : Side) :
    s.consumed i <+: wire i.other := by
  obtain ⟨out, inn, howes⟩ := h i
  exact ⟨inn, howes.read.symm⟩

/-! ## Deadlock -/

/-- Where an end of a stuck connection stands. -/
inductive Blocked (s : State α) (i : Side) (out inn : List UInt8) : Prop
  | returned (hout : out = []) (hinn : inn = [])
  | full (hout : out ≠ []) (hfull : d.capacity i ≤ (s.transit i).length)
  | starved (hout : out = []) (hinn : inn ≠ []) (hempty : s.transit i.other = [])

theorem Owes.blocked {s : State α} {i : Side} {out inn : List UInt8}
    (howes : Owes d wire Q s i out inn) (hstuck : ∀ ev, step d s ev = none) :
    Blocked (d := d) s i out inn := by
  have hsend := hstuck (.send i 1)
  have hrecv := hstuck (.recv i 1)
  simp only [step] at hsend hrecv
  cases hprogram : s.program i with
  | ret r =>
      obtain ⟨hout, hinn, -⟩ := (hprogram ▸ howes.exchange).of_ret
      exact .returned hout hinn
  | call op next =>
      have hexchange := hprogram ▸ howes.exchange
      cases hexchange with
      | @send _ _ data _ hdata hinto _ =>
          refine .full (fun hout => hdata (List.prefix_nil.mp (hout ▸ hinto))) ?_
          by_contra hroom
          have hlen : 1 ≤ data.length := List.length_pos_iff.mpr hdata
          simp [hprogram, Program.accept, hlen, Nat.succ_le_of_lt (not_le.mp hroom)] at hsend
      | @recv _ size _ hpos hsize _ =>
          refine .starved rfl (fun hinn => ?_) ?_
          · rw [hinn, List.length_nil] at hsize
            omega
          · by_contra hsome
            have hlen : 1 ≤ (s.transit i.other).length := List.length_pos_iff.mpr hsome
            simp [hprogram, Program.deliver, hpos, hlen] at hrecv

/-- In a stuck state both ends wait for room, so neither direction holds all that
is written into it. -/
theorem Inv.overfull_of_stuck {s : State α} (h : Inv d wire Q s)
    (hcapacity : ∀ i, 1 ≤ d.capacity i) (hstuck : Stuck d s) (i : Side) :
    d.capacity i < (wire i).length := by
  obtain ⟨⟨j, hj⟩, hnone⟩ := hstuck
  have hfull (i : Side) (hi : ∀ r, s.program i ≠ .ret r) :
      d.capacity i < (wire i).length ∧ ∀ r, s.program i.other ≠ .ret r := by
    obtain ⟨out, inn, howes⟩ := h i
    obtain ⟨out', inn', howes'⟩ := h i.other
    have htransit := howes.transit_append howes'
    have htransit' := howes'.transit_append (by simpa using howes)
    rw [Side.other_other] at htransit'
    have hblocked' := howes'.blocked hnone
    cases howes.blocked hnone with
    | returned hout hinn =>
        subst hout hinn
        obtain ⟨r, hr, -⟩ := howes.exchange.eq_ret
        exact absurd hr (hi r)
    | starved hout hinn hempty =>
        -- what this end waits for the other one is still writing, into an empty direction
        rw [hempty, List.nil_append] at htransit
        cases hblocked' with
        | returned hout' _ => exact absurd (htransit ▸ hout') hinn
        | starved hout' _ _ => exact absurd (htransit ▸ hout') hinn
        | full _ hroom =>
            rw [hempty, List.length_nil] at hroom
            exact absurd (hcapacity i.other) (by omega)
    | full hout hroom =>
        refine ⟨?_, fun r hr => ?_⟩
        · have hlen := congrArg List.length howes.written
          have hpos := List.length_pos_iff.mpr hout
          simp only [List.length_append] at hlen
          omega
        · obtain ⟨-, rfl, -⟩ := (hr ▸ howes'.exchange).of_ret
          exact hout (List.append_eq_nil_iff.mp htransit').2
  obtain ⟨hlt, hother⟩ := hfull j hj
  obtain rfl | rfl := j.eq_or_eq_other i
  · exact hlt
  · exact (hfull j.other hother).1

/-- An end with something to write and some room can send one byte. -/
theorem Inv.send_one {s : State α} (h : Inv d wire Q s) (i : Side)
    (hroom : (s.transit i).length + 1 ≤ d.capacity i)
    (hwire : (s.consumed i.other).length + (s.transit i).length + 1 ≤ (wire i).length) :
    ∃ t, Duplex.step d s (.send i 1) = some t ∧ (t.transit i).length = (s.transit i).length + 1 ∧
      t.transit i.other = s.transit i.other ∧ t.consumed = s.consumed := by
  obtain ⟨out, inn, howes⟩ := h i
  have hout : out ≠ [] := by
    rintro rfl
    have hlen := congrArg List.length howes.written
    simp only [List.length_append, List.length_nil] at hlen
    omega
  obtain ⟨data, next, hprogram, hdata⟩ := howes.exchange.of_out_ne_nil hout
  have haccept : (s.program i).accept (d.fd i) 1 = some (data.take 1, next (.done 1)) := by
    simp [hprogram, Program.accept, Nat.one_le_iff_ne_zero, hdata]
  have hone : (data.take 1).length = 1 := (howes.exchange.of_accept haccept).1
  simp only [Duplex.step, if_pos hroom, haccept, Option.map_some]
  refine ⟨_, rfl, ?_, ?_, rfl⟩
  · simp [hone]
  · simp

/-- And as many as there are to write and room for. -/
theorem Inv.fill {s : State α} (h : Inv d wire Q s) (i : Side) (n : Nat)
    (hroom : (s.transit i).length + n ≤ d.capacity i)
    (hwire : (s.consumed i.other).length + (s.transit i).length + n ≤ (wire i).length) :
    ∃ t, (machine d).run s (List.replicate n (.send i 1)) = some t ∧
      (t.transit i).length = (s.transit i).length + n ∧
      t.transit i.other = s.transit i.other ∧ t.consumed = s.consumed := by
  induction n generalizing s with
  | zero => exact ⟨s, rfl, rfl, rfl, rfl⟩
  | succ n ih =>
      obtain ⟨u, hstep, hlen, hother, hconsumed⟩ := h.send_one i (by omega) (by omega)
      obtain ⟨t, hrun, hlen', hother', hconsumed'⟩ := ih (h.step hstep) (by omega)
        (by rw [hlen, hconsumed]; omega)
      refine ⟨t, ?_, by omega, hother'.trans hother, hconsumed'.trans hconsumed⟩
      rw [List.replicate_succ, Machine.run_cons]
      exact Option.bind_eq_some_iff.mpr ⟨u, hstep, hrun⟩

/-- Two directions that are full, with more to write and nothing taken, are
stuck. -/
theorem Inv.stuck_of_full {s : State α} (h : Inv d wire Q s)
    (hfull : ∀ i, (s.transit i).length = d.capacity i)
    (hconsumed : ∀ i, s.consumed i = []) (hwire : ∀ i, d.capacity i < (wire i).length) :
    Stuck d s := by
  have hsending (i : Side) : ∃ data next, s.program i = .call (.send (d.fd i) data) next := by
    obtain ⟨out, inn, howes⟩ := h i
    have hout : out ≠ [] := by
      rintro rfl
      have hlen := congrArg List.length howes.written
      have hlt := hwire i
      simp only [hconsumed, List.nil_append, List.append_nil, hfull] at hlen
      omega
    obtain ⟨data, next, hprogram, -⟩ := howes.exchange.of_out_ne_nil hout
    exact ⟨data, next, hprogram⟩
  refine ⟨⟨.a, fun r hr => ?_⟩, fun ev => ?_⟩
  · obtain ⟨data, next, hprogram⟩ := hsending .a
    rw [hprogram] at hr
    cases hr
  · cases ev with
    | recv i k =>
        obtain ⟨data, next, hprogram⟩ := hsending i
        simp [Duplex.step, hprogram, Program.deliver]
    | send i k =>
        simp only [Duplex.step]
        split
        · next hroom =>
            -- no room is left, so only a transfer of nothing would fit
            obtain rfl : k = 0 := by
              have := hfull i
              omega
            obtain ⟨data, next, hprogram⟩ := hsending i
            simp [hprogram, Program.accept]
        · rfl

/-- Two writers of `wire` can block each other exactly when neither direction
holds what is written into it. -/
theorem exists_stuck_iff (hcapacity : ∀ i, 1 ≤ d.capacity i)
    (hprogram : ∀ i, Exchange (d.fd i) (Q i) (wire i) (wire i.other) (d.program i)) :
    (∃ s, (machine d).Reachable s ∧ Stuck d s) ↔ ∀ i, d.capacity i < (wire i).length := by
  constructor
  · rintro ⟨s, hs, hstuck⟩ i
    exact (inv_of_reachable hprogram hs).overfull_of_stuck hcapacity hstuck i
  · intro hwire
    have hinit := inv_init hprogram
    obtain ⟨s, hrun, hlen, hother, hconsumed⟩ := hinit.fill .a (d.capacity .a)
      (by simp [State.init]) (by simpa [State.init] using (hwire .a).le)
    have hs : (machine d).Reachable s := ⟨_, hrun⟩
    have hinv := inv_of_reachable hprogram hs
    have hb : s.transit .b = [] := hother
    obtain ⟨t, hrun', hlen', hother', hconsumed'⟩ := hinv.fill .b (d.capacity .b)
      (by simp [hb]) (by simpa [hb, hconsumed, State.init] using (hwire .b).le)
    have ht : (machine d).Reachable t := hs.run hrun'
    refine ⟨t, ht, (inv_of_reachable hprogram ht).stuck_of_full ?_ ?_ hwire⟩
    · rintro (_ | _)
      · have ha : t.transit .a = s.transit .a := hother'
        rw [ha, hlen]
        simp [State.init]
      · rw [hlen', hb]
        simp
    · intro i
      rw [hconsumed', hconsumed]
      rfl

end Duplex
end Lib
end DocaStdexec
