import DocaStdexec.Lib.Machine

/-!
# Calls that hold a mutex

A call that runs under a mutex is a list of accesses to the memory that the mutex
protects, and other threads go on in between: they wait for the mutex, or they touch what
the call does not.  `fine` has every access as a step of its own, and `coarse` has every
call as one step.  `fine_refines` says when the difference cannot be seen: what others do
during a call leaves the call possible and commutes with each of its accesses.
-/

namespace DocaStdexec
namespace Lib

/-- Code between `lock` and `unlock`: the accesses, each to the memory and to the local
variables of the call. -/
abbrev Code (μ ρ : Type*) := List (μ × ρ → μ × ρ)

namespace Code

variable {μ ρ : Type*} {g : μ → μ} {c d : Code μ ρ} {x : μ × ρ}

def exec (c : Code μ ρ) (x : μ × ρ) : μ × ρ := c.foldl (fun x access => access x) x

@[simp] theorem exec_nil (x : μ × ρ) : exec [] x = x := rfl

@[simp] theorem exec_cons (f : μ × ρ → μ × ρ) (c : Code μ ρ) (x : μ × ρ) :
    exec (f :: c) x = exec c (f x) := rfl

theorem exec_append (c d : Code μ ρ) (x : μ × ρ) : exec (c ++ d) x = exec d (exec c x) :=
  List.foldl_append

/-- No access of `c`, started in `x`, notices whether `g` has happened before it. -/
def Commutes (g : μ → μ) : Code μ ρ → μ × ρ → Prop
  | [], _ => True
  | f :: c, x => f (g x.1, x.2) = (g (f x).1, (f x).2) ∧ Commutes g c (f x)

/-- So whatever part of the code has been executed, `g` comes after it. -/
theorem Commutes.exec (h : Commutes g (c ++ d) x) :
    exec c (g x.1, x.2) = (g (exec c x).1, (exec c x).2) := by
  induction c generalizing x with
  | nil => rfl
  | cons f c ih =>
      obtain ⟨hfirst, hrest⟩ := h
      rw [exec_cons, hfirst, exec_cons]
      exact ih hrest

theorem commutes_id (c : Code μ ρ) (x : μ × ρ) : Commutes id c x := by
  induction c generalizing x with
  | nil => trivial
  | cons f c ih => exact ⟨rfl, ih (f x)⟩

end Code

/-- Memory behind a mutex, and everything else: the calls `ε` that take the mutex and the
steps `δ` that do not. -/
structure Mutex (μ κ ρ ε δ : Type*) where
  memory : μ
  rest : κ
  /-- The code of a call and the initial values of its local variables, if the call can be
  made. -/
  enter : κ → ε → Option (Code μ ρ × ρ)
  /-- What the caller does with the final values. -/
  leave : κ → ε → ρ → κ
  /-- What another step does to the memory, and to the rest if it can happen. -/
  touch : δ → μ → μ
  move : κ → δ → Option κ
  /-- The step does not interfere with the call. -/
  apart : ε → δ → Bool

namespace Mutex

variable {μ κ ρ ε δ : Type*}

/-- `holder` is the call that has the mutex, with the accesses it has not made yet and the
values of its local variables. -/
structure State (μ κ ρ ε : Type*) where
  memory : μ
  rest : κ
  holder : Option (ε × Code μ ρ × ρ)

inductive Event (ε δ : Type*)
  | lock (e : ε)
  /-- The holder makes its next access. -/
  | access
  | unlock
  | other (d : δ)

section Machines

variable (a : Mutex μ κ ρ ε δ)

/-- A call is one step. -/
def coarse : Machine (μ × κ) (ε ⊕ δ) where
  init := (a.memory, a.rest)
  step s
    | .inl e => (a.enter s.2 e).map fun code =>
        let x := code.1.exec (s.1, code.2)
        (x.1, a.leave s.2 e x.2)
    | .inr d => (a.move s.2 d).map fun k => (a.touch d s.1, k)

/-- An access is one step. -/
def fine : Machine (State μ κ ρ ε) (Event ε δ) where
  init := ⟨a.memory, a.rest, none⟩
  step s
    | .lock e =>
        match s.holder with
        | none => (a.enter s.rest e).map fun code => { s with holder := some (e, code) }
        | some _ => none
    | .access =>
        match s.holder with
        | some (e, f :: c, r) =>
            let x := f (s.memory, r)
            some { s with memory := x.1, holder := some (e, c, x.2) }
        | _ => none
    | .unlock =>
        match s.holder with
        | some (e, [], r) => some { s with rest := a.leave s.rest e r, holder := none }
        | _ => none
    | .other d =>
        if s.holder.all fun h => a.apart h.1 d then
          (a.move s.rest d).map fun k => { s with memory := a.touch d s.memory, rest := k }
        else none

end Machines

variable {a : Mutex μ κ ρ ε δ}

/-- What a step of the fine machine can do. -/
inductive Effect (a : Mutex μ κ ρ ε δ) (s : State μ κ ρ ε) :
    Event ε δ → State μ κ ρ ε → Prop
  | lock (e : ε) (code : Code μ ρ × ρ) (hfree : s.holder = none)
      (henter : a.enter s.rest e = some code) :
      Effect a s (.lock e) { s with holder := some (e, code) }
  | access (e : ε) (f : μ × ρ → μ × ρ) (c : Code μ ρ) (r : ρ)
      (hholder : s.holder = some (e, f :: c, r)) :
      Effect a s .access
        { s with memory := (f (s.memory, r)).1, holder := some (e, c, (f (s.memory, r)).2) }
  | unlock (e : ε) (r : ρ) (hholder : s.holder = some (e, [], r)) :
      Effect a s .unlock { s with rest := a.leave s.rest e r, holder := none }
  | other (d : δ) (k : κ) (hapart : ∀ h, s.holder = some h → a.apart h.1 d = true)
      (hmove : a.move s.rest d = some k) :
      Effect a s (.other d) { s with memory := a.touch d s.memory, rest := k }

theorem fine_effect {s t : State μ κ ρ ε} {ev : Event ε δ} (hstep : a.fine.step s ev = some t) :
    Effect a s ev t := by
  cases ev with
  | lock e =>
      simp only [fine] at hstep
      split at hstep
      · next hfree =>
          obtain ⟨code, henter, rfl⟩ := Option.map_eq_some_iff.mp hstep
          exact .lock e code hfree henter
      · simp at hstep
  | access =>
      simp only [fine] at hstep
      split at hstep
      · next hholder => exact Option.some.inj hstep ▸ .access _ _ _ _ hholder
      · simp at hstep
  | unlock =>
      simp only [fine] at hstep
      split at hstep
      · next hholder => exact Option.some.inj hstep ▸ .unlock _ _ hholder
      · simp at hstep
  | other d =>
      obtain ⟨hapart, hsome⟩ := Option.ite_none_right_eq_some.mp hstep
      obtain ⟨k, hmove, rfl⟩ := Option.map_eq_some_iff.mp hsome
      refine .other d k (fun h hh => ?_) hmove
      rw [hh] at hapart
      exact hapart

/-- What others may do during a call: it leaves the call possible, with the same code, and
commutes with the accesses of the call. -/
structure Harmless (a : Mutex μ κ ρ ε δ) (I : μ → κ → Prop) : Prop where
  init : I a.memory a.rest
  step : ∀ {s t ev}, I s.1 s.2 → a.coarse.step s ev = some t → I t.1 t.2
  apart : ∀ {m k k' e c r d}, I m k → a.enter k e = some (c, r) → a.apart e d = true →
    a.move k d = some k' → a.enter k' e = some (c, r) ∧ Code.Commutes (a.touch d) c (m, r)

/-- The coarse machine stands where the last finished call has left the memory, apart from
what others have done to it since. -/
structure Between (a : Mutex μ κ ρ ε δ) (I : μ → κ → Prop) (s : State μ κ ρ ε) (u : μ × κ) :
    Prop where
  invariant : I u.1 u.2
  rest : s.rest = u.2
  free : s.holder = none → s.memory = u.1
  held : ∀ e c r, s.holder = some (e, c, r) → ∃ past r₀,
    a.enter u.2 e = some (past ++ c, r₀) ∧ past.exec (u.1, r₀) = (s.memory, r)

theorem fine_refines {I : μ → κ → Prop} (h : Harmless a I) :
    a.fine.Simulation a.coarse (Between a I) where
  init := ⟨h.init, rfl, fun _ => rfl, fun _ _ _ hheld => by simp [fine] at hheld⟩
  step := by
    rintro s t ev ⟨m, k⟩ ⟨hI, hrest, hfree, hheld⟩ hstep
    change s.rest = k at hrest
    cases fine_effect hstep with
    | lock e code hnone henter =>
        refine ⟨[], (m, k), rfl, hI, hrest, by simp, ?_⟩
        intro e' c r hsome
        obtain ⟨rfl, rfl⟩ := Prod.mk.inj (Option.some.inj hsome)
        refine ⟨[], r, ?_, ?_⟩
        · exact hrest ▸ henter
        · exact Prod.ext (hfree hnone).symm rfl
    | access e f c r hholder =>
        obtain ⟨past, r₀, henter, hpast⟩ := hheld e (f :: c) r hholder
        refine ⟨[], (m, k), rfl, hI, hrest, by simp, ?_⟩
        intro e' c' r' hsome
        obtain ⟨rfl, hcode⟩ := Prod.mk.inj (Option.some.inj hsome)
        obtain ⟨rfl, rfl⟩ := Prod.mk.inj hcode
        refine ⟨past ++ [f], r₀, ?_, ?_⟩
        · rw [henter, List.append_assoc]
          rfl
        · rw [Code.exec_append, hpast]
          rfl
    | unlock e r hholder =>
        obtain ⟨past, r₀, henter, hpast⟩ := hheld e [] r hholder
        rw [List.append_nil] at henter
        have hcall : a.coarse.step (m, k) (.inl e) = some (s.memory, a.leave k e r) := by
          simp only [coarse, henter, Option.map_some, hpast]
        refine ⟨[.inl e], _, (Machine.run_singleton _).trans hcall, ?_⟩
        refine ⟨h.step hI hcall, ?_, fun _ => rfl, by simp⟩
        exact congrArg (a.leave · e r) hrest
    | other d k' hapart hmove =>
        have hmove' : a.move k d = some k' := hrest ▸ hmove
        have hother : a.coarse.step (m, k) (.inr d) = some (a.touch d m, k') := by
          simp only [coarse, hmove', Option.map_some]
        refine ⟨[.inr d], _, (Machine.run_singleton _).trans hother, ?_⟩
        refine ⟨h.step hI hother, rfl, fun hnone => congrArg (a.touch d) (hfree hnone), ?_⟩
        intro e c r hsome
        obtain ⟨past, r₀, henter, hpast⟩ := hheld e c r hsome
        obtain ⟨hstill, hcommutes⟩ := h.apart hI henter (hapart _ hsome) hmove'
        refine ⟨past, r₀, hstill, ?_⟩
        have hexec := hcommutes.exec
        rw [hpast] at hexec
        exact hexec

/-- The holder lets the mutex go after its remaining accesses, whatever the other threads
wait for. -/
theorem run_unlock {s : State μ κ ρ ε} {e : ε} {c : Code μ ρ} {r : ρ}
    (hholder : s.holder = some (e, c, r)) :
    a.fine.run s (List.replicate c.length .access ++ [.unlock]) =
      some ⟨(c.exec (s.memory, r)).1, a.leave s.rest e (c.exec (s.memory, r)).2, none⟩ := by
  induction c generalizing s r with
  | nil => simp [fine, hholder]
  | cons f c ih =>
      have haccess : a.fine.step s .access = some { s with
          memory := (f (s.memory, r)).1, holder := some (e, c, (f (s.memory, r)).2) } := by
        simp only [fine, hholder]
      rw [List.length_cons, List.replicate_succ, List.cons_append, Machine.run_cons, haccess,
        Option.bind_some, ih rfl]
      rfl

end Mutex

namespace Machine

variable {σ ε σ' ε' σ'' ε'' : Type*} {m : Machine σ ε} {a : Machine σ' ε'} {b : Machine σ'' ε''}
  {R : σ → σ' → Prop} {S : σ' → σ'' → Prop}

/-- A simulation relates whole runs. -/
theorem Simulation.run (hsim : Simulation a b S) {s t : σ'} {u : σ''} {es : List ε'}
    (hS : S s u) (hrun : a.run s es = some t) :
    ∃ fs v, b.run u fs = some v ∧ S t v := by
  induction es generalizing s u with
  | nil => exact ⟨[], u, rfl, Option.some.inj hrun ▸ hS⟩
  | cons e es ih =>
      obtain ⟨s', hstep, hrest⟩ := Option.bind_eq_some_iff.mp hrun
      obtain ⟨fs, u', hfs, hS'⟩ := hsim.step hS hstep
      obtain ⟨gs, v, hgs, hSv⟩ := ih hS' hrest
      exact ⟨fs ++ gs, v, b.run_trans hfs hgs, hSv⟩

theorem Simulation.trans (hfirst : Simulation m a R) (hsecond : Simulation a b S) :
    Simulation m b fun s u => ∃ t, R s t ∧ S t u where
  init := ⟨a.init, hfirst.init, hsecond.init⟩
  step := by
    rintro s t e u ⟨s', hR, hS⟩ hstep
    obtain ⟨es, t', hrun, hR'⟩ := hfirst.step hR hstep
    obtain ⟨fs, v, hfs, hS'⟩ := hsecond.run hS hrun
    exact ⟨fs, v, hfs, t', hR', hS'⟩

end Machine
end Lib
end DocaStdexec
