import DocaStdexec.Lib.Session

/-!
# Programs that go on after a session

`Duplex.andThen` lets each end go on where its program returns.  Two ends that follow
matching scripts and then wait for more make the same transfers as without the rest,
and wait for ever: the other end has nothing left to say (`run_of_andThen`).

What an end returns is a matter of its last part alone, whatever the other end does
(`ensures_of_reachable`).
-/

namespace DocaStdexec
namespace Lib

variable {α β : Type}

namespace Program

/-- The program waits in a `::recv` on `fd`. -/
def Waits (fd : Int) (p : Program α) : Prop := ∃ size next, p = .call (.recv fd size) next

theorem Waits.bind {fd : Int} {p : Program α} (h : p.Waits fd) (f : α → Program β) :
    Program.Waits fd (p.bind f) := by
  obtain ⟨size, next, rfl⟩ := h
  exact ⟨size, _, rfl⟩

theorem Waits.ne_ret {fd : Int} {p : Program α} (h : p.Waits fd) (r : α) : p ≠ .ret r := by
  obtain ⟨size, next, rfl⟩ := h
  exact nofun

/-- A program that goes on waiting sends nothing more. -/
theorem accept_bind {fd : Int} {p : Program α} {f : α → Program β}
    (hf : ∀ r, p = .ret r → (f r).Waits fd) (k : Nat) :
    Program.accept fd k (p.bind f) =
      (p.accept fd k).map fun (bytes, q) => (bytes, q.bind f) := by
  cases p with
  | ret r =>
      obtain ⟨size, next, hr⟩ := hf r rfl
      simp [accept, hr]
  | call op next =>
      cases op with
      | send fd' data =>
          by_cases hk : fd' = fd ∧ 1 ≤ k ∧ k ≤ data.length <;> simp [accept, hk]
      | _ => rfl

/-- A program that goes on waiting takes nothing more where nothing is on the way. -/
theorem deliver_bind {fd : Int} {p : Program α} {f : α → Program β} {available : List UInt8}
    (hf : ∀ r, p = .ret r → (f r).Waits fd ∧ available = []) (k : Nat) :
    Program.deliver fd k available (p.bind f) =
      (p.deliver fd k available).map fun q => q.bind f := by
  cases p with
  | ret r =>
      obtain ⟨⟨size, next, hr⟩, rfl⟩ := hf r rfl
      have hk : ¬(1 ≤ k ∧ k ≤ size ∧ k = 0) := by omega
      simp [deliver, hr, hk]
  | call op next =>
      cases op with
      | recv fd' size =>
          by_cases hk : fd' = fd ∧ 1 ≤ k ∧ k ≤ size ∧ k ≤ available.length <;>
            simp [deliver, hk]
      | _ => rfl

end Program

/-- A program whose script reads next waits. -/
theorem Follows.waits {fd : Int} {Q : α → Prop} {l : List Move} {p : Program α}
    {bytes : List UInt8} (h : Follows fd Q l p) (hbytes : bytes ≠ [])
    (hinto : Move.reads bytes <+: l) : p.Waits fd := by
  obtain ⟨x, rest, rfl⟩ := List.exists_cons_of_ne_nil hbytes
  obtain ⟨tail, rfl⟩ := hinto
  obtain ⟨size, next, hcall, -⟩ := h.of_get
  exact ⟨size, next, hcall⟩

namespace Duplex

/-- Each end goes on with `f`. -/
def andThen (d : Duplex α) (f : Side → α → Program β) : Duplex β where
  fd := d.fd
  capacity := d.capacity
  program i := (d.program i).bind (f i)

def State.andThen (s : State α) (f : Side → α → Program β) : State β where
  program i := (s.program i).bind (f i)
  transit := s.transit
  consumed := s.consumed

@[simp] theorem State.andThen_transit (s : State α) (f : Side → α → Program β) :
    (s.andThen f).transit = s.transit := rfl

theorem State.init_andThen (d : Duplex α) (f : Side → α → Program β) :
    State.init (d.andThen f) = (State.init d).andThen f := rfl

variable {d : Duplex α} {script : Side → List Move} {Q : Side → α → Prop} {s : State α}
  {n : Side → Nat} {f : Side → α → Program β}

/-- An end that has moved on goes on from there. -/
theorem State.mk_andThen (s : State α) (f : Side → α → Program β) (i : Side) (q : Program α)
    (transit consumed : Side → List UInt8) :
    State.mk (Function.update (s.andThen f).program i (q.bind (f i))) transit consumed =
      (State.mk (Function.update s.program i q) transit consumed).andThen f := by
  have hprogram := funext
    (Function.apply_update (fun j (p : Program α) => p.bind (f j)) s.program i q)
  exact congrArg (State.mk · transit consumed) hprogram.symm

/-- Nothing is on the way to an end that has returned. -/
theorem At.transit_of_ret (h : At d script Q s n) (hmatch : Matching script) {i : Side} {r : α}
    (hret : s.program i = .ret r) : s.transit i.other = [] := by
  have hfollows := h.follows i
  have hend := h.transit_prefix hmatch i
  have hnil := (hret ▸ hfollows).of_ret.1
  rw [hnil] at hend
  exact List.prefix_nil.mp hend

/-- Ends that go on waiting make the transfers that they make without going on. -/
theorem At.step_andThen (h : At d script Q s n) (hmatch : Matching script)
    (hf : ∀ i r, Q i r → (f i r).Waits (d.fd i)) (ev : Event) :
    Duplex.step (d.andThen f) (s.andThen f) ev =
      (Duplex.step d s ev).map fun t => t.andThen f := by
  have hwaits (i : Side) (r : α) (hret : s.program i = .ret r) : (f i r).Waits (d.fd i) :=
    hf i r (h.of_ret hret)
  cases ev with
  | send i k =>
      have haccept : ((s.andThen f).program i).accept (d.fd i) k = _ :=
        Program.accept_bind (hwaits i) k
      by_cases hroom : (s.transit i).length + k ≤ d.capacity i
      · simp only [Duplex.step, andThen, State.andThen_transit, haccept, if_pos hroom]
        cases (s.program i).accept (d.fd i) k with
        | none => rfl
        | some sent => exact congrArg some (s.mk_andThen f i sent.2 _ _)
      · simp [Duplex.step, andThen, hroom]
  | recv i k =>
      have hdeliver : ((s.andThen f).program i).deliver (d.fd i) k (s.transit i.other) = _ :=
        Program.deliver_bind (fun r hret => ⟨hwaits i r hret, h.transit_of_ret hmatch hret⟩) k
      simp only [Duplex.step, andThen, State.andThen_transit, hdeliver]
      cases (s.program i).deliver (d.fd i) k (s.transit i.other) with
      | none => rfl
      | some q => exact congrArg some (s.mk_andThen f i q _ _)

theorem At.run_andThen (h : At d script Q s n) (hmatch : Matching script)
    (hf : ∀ i r, Q i r → (f i r).Waits (d.fd i)) (es : List Event) :
    (machine (d.andThen f)).run (s.andThen f) es =
      ((machine d).run s es).map fun t => t.andThen f := by
  induction es generalizing s n with
  | nil => rfl
  | cons ev es ih =>
      have hstep : (machine (d.andThen f)).step (s.andThen f) ev =
          ((machine d).step s ev).map fun t => t.andThen f := h.step_andThen hmatch hf ev
      rw [Machine.run_cons, Machine.run_cons, hstep]
      cases ht : (machine d).step s ev with
      | none => rfl
      | some t =>
          obtain ⟨i, k, -, hat, -⟩ := h.step hmatch ht
          exact ih hat

/-- If both ends wait for more after the session, a run of the whole is a run of the
session, and no end ever returns. -/
theorem run_of_andThen (hprogram : ∀ i, Follows (d.fd i) (Q i) (script i) (d.program i))
    (hmatch : Matching script) (hf : ∀ i r, Q i r → (f i r).Waits (d.fd i)) {es : List Event}
    {t : State β} (hrun : (machine (d.andThen f)).run (State.init (d.andThen f)) es = some t) :
    ∃ s, (machine d).run (State.init d) es = some s ∧ ∀ i r, t.program i ≠ .ret r := by
  have hat := inv_at_init hprogram
  rw [State.init_andThen, hat.run_andThen hmatch hf] at hrun
  obtain ⟨s, hs, rfl⟩ := Option.map_eq_some_iff.mp hrun
  refine ⟨s, hs, fun i r hret => ?_⟩
  obtain ⟨n, h⟩ := at_of_reachable hprogram hmatch ⟨es, hs⟩
  cases hprog : s.program i with
  | ret a =>
      have hwaits := hf i a (h.of_ret hprog)
      exact hwaits.ne_ret r (by simpa [State.andThen, hprog] using hret)
  | call op next => simp [State.andThen, hprog] at hret

/-! ## What an end can return -/

/-- An end returns only what its program ensures, whatever the other end does. -/
theorem ensures_of_reachable {d : Duplex α} {i : Side} {P : α → Prop}
    (hprogram : (d.program i).Ensures P) {s : State α} (hs : (machine d).Reachable s) :
    (s.program i).Ensures P := by
  refine hs.invariant (I := fun s : State α => (s.program i).Ensures P) hprogram ?_
  intro s ev t hi hstep
  cases ev with
  | send j k =>
      obtain ⟨-, hmap⟩ := Option.ite_none_right_eq_some.mp hstep
      obtain ⟨⟨bytes, p⟩, haccept, rfl⟩ := Option.map_eq_some_iff.mp hmap
      obtain ⟨data, next, hcall, -, -, -, rfl⟩ := Program.accept_eq_some haccept
      obtain rfl | rfl := j.eq_or_eq_other i
      · simpa [hcall] using (hcall ▸ hi) _
      · simpa using hi
  | recv j k =>
      obtain ⟨p, hdeliver, rfl⟩ := Option.map_eq_some_iff.mp hstep
      obtain ⟨size, next, hcall, -, -, -, rfl⟩ := Program.deliver_eq_some hdeliver
      obtain rfl | rfl := j.eq_or_eq_other i
      · simpa [hcall] using (hcall ▸ hi) _
      · simpa using hi

end Duplex
end Lib
end DocaStdexec
