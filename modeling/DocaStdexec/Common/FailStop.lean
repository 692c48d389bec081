import DocaStdexec.Common.CheckError
import DocaStdexec.Lib.Machine
import Mathlib.Logic.Function.Basic

/-!
# `check_error` on several threads

Every list of argument types has its own instance of `check_error`, with a static mutex
that is locked before the status is looked at.  A call that fails prints its report in two
pieces and calls `exit(1)`, which does not give the mutex back.  While `exit` runs, the
other threads go on.

So the report of an instance is never torn apart and is the only one of its instance, and
once it has begun no call of the instance returns any more, not even one that finds
`DOCA_SUCCESS`.  Reports of different instances may mix.
-/

namespace DocaStdexec
namespace FailStop

open Lib

/-- A call of the instance for `args`. -/
structure Call (κ μ : Type*) where
  args : κ
  err : DocaError
  msg : μ

/-- What a call prints, in this order. -/
inductive Piece
  | message
  | error
  deriving DecidableEq

/-- Where a thread stands. -/
inductive Pc (κ μ : Type*)
  | outside
  /-- About to lock the mutex. -/
  | locking (c : Call κ μ)
  /-- It has the mutex. -/
  | checking (c : Call κ μ)
  /-- It has printed the message. -/
  | reporting (c : Call κ μ)
  /-- It is in `exit(1)`. -/
  | exiting (c : Call κ μ)

structure State (κ μ θ : Type*) where
  mutex : κ → Option θ
  pc : θ → Pc κ μ
  /-- What has been printed. -/
  out : List (Call κ μ × Piece)
  /-- The calls that have returned. -/
  returned : List (θ × Call κ μ)
  ended : Bool

inductive Event (κ μ θ : Type*)
  | call (i : θ) (c : Call κ μ)
  | lock (i : θ)
  | unlock (i : θ)
  | printMessage (i : θ)
  | printError (i : θ)
  /-- The process ends. -/
  | exit (i : θ)

section Model

variable {κ μ θ : Type*} [DecidableEq κ] [DecidableEq θ]

def State.init : State κ μ θ := ⟨fun _ => none, fun _ => .outside, [], [], false⟩

def State.move (s : State κ μ θ) (i : θ) (pc : Pc κ μ) : State κ μ θ :=
  { s with pc := Function.update s.pc i pc }

/-- `check_error`, one access at a time. -/
def advance (s : State κ μ θ) : Event κ μ θ → Option (State κ μ θ)
  | .call i c =>
      match s.pc i with
      | .outside => some (s.move i (.locking c))
      | _ => none
  | .lock i =>
      match s.pc i with
      | .locking c =>
          if s.mutex c.args = none then
            some { s.move i (.checking c) with mutex := Function.update s.mutex c.args (some i) }
          else none
      | _ => none
  | .unlock i =>
      match s.pc i with
      | .checking c =>
          if checkError c.err then
            some { s.move i .outside with
              mutex := Function.update s.mutex c.args none
              returned := s.returned ++ [(i, c)] }
          else none
      | _ => none
  | .printMessage i =>
      match s.pc i with
      | .checking c =>
          if checkError c.err then none
          else some { s.move i (.reporting c) with out := s.out ++ [(c, .message)] }
      | _ => none
  | .printError i =>
      match s.pc i with
      | .reporting c => some { s.move i (.exiting c) with out := s.out ++ [(c, .error)] }
      | _ => none
  | .exit i =>
      match s.pc i with
      | .exiting _ => some { s with ended := true }
      | _ => none

/-- A process that has ended does nothing. -/
def step (s : State κ μ θ) (ev : Event κ μ θ) : Option (State κ μ θ) :=
  if s.ended then none else advance s ev

variable (κ μ θ) in
def machine : Machine (State κ μ θ) (Event κ μ θ) := ⟨State.init, step⟩

/-- Everything a step can do. -/
inductive Effect (s : State κ μ θ) : Event κ μ θ → State κ μ θ → Prop
  | call (i : θ) (c : Call κ μ) (hpc : s.pc i = .outside) :
      Effect s (.call i c) (s.move i (.locking c))
  | lock (i : θ) (c : Call κ μ) (hpc : s.pc i = .locking c) (hfree : s.mutex c.args = none) :
      Effect s (.lock i)
        { s.move i (.checking c) with mutex := Function.update s.mutex c.args (some i) }
  | unlock (i : θ) (c : Call κ μ) (hpc : s.pc i = .checking c) (herr : c.err = .success) :
      Effect s (.unlock i)
        { s.move i .outside with
          mutex := Function.update s.mutex c.args none
          returned := s.returned ++ [(i, c)] }
  | printMessage (i : θ) (c : Call κ μ) (hpc : s.pc i = .checking c) (herr : c.err ≠ .success) :
      Effect s (.printMessage i)
        { s.move i (.reporting c) with out := s.out ++ [(c, .message)] }
  | printError (i : θ) (c : Call κ μ) (hpc : s.pc i = .reporting c) :
      Effect s (.printError i)
        { s.move i (.exiting c) with out := s.out ++ [(c, .error)] }
  | exit (i : θ) (c : Call κ μ) (hpc : s.pc i = .exiting c) :
      Effect s (.exit i) { s with ended := true }

theorem step_effect {s t : State κ μ θ} {ev : Event κ μ θ} (hstep : step s ev = some t) :
    s.ended = false ∧ Effect s ev t := by
  obtain ⟨hgoing, hstep⟩ := Option.ite_none_left_eq_some.mp hstep
  refine ⟨by simpa using hgoing, ?_⟩
  cases ev with
  | call i c =>
      simp only [advance] at hstep
      split at hstep
      · next hpc => exact Option.some.inj hstep ▸ .call i c hpc
      · simp at hstep
  | lock i =>
      simp only [advance] at hstep
      split at hstep
      · next c hpc =>
          obtain ⟨hfree, hsome⟩ := Option.ite_none_right_eq_some.mp hstep
          exact Option.some.inj hsome ▸ .lock i c hpc hfree
      · simp at hstep
  | unlock i =>
      simp only [advance] at hstep
      split at hstep
      · next c hpc =>
          obtain ⟨herr, hsome⟩ := Option.ite_none_right_eq_some.mp hstep
          exact Option.some.inj hsome ▸ .unlock i c hpc ((checkError_iff _).mp herr)
      · simp at hstep
  | printMessage i =>
      simp only [advance] at hstep
      split at hstep
      · next c hpc =>
          obtain ⟨herr, hsome⟩ := Option.ite_none_left_eq_some.mp hstep
          exact Option.some.inj hsome ▸
            .printMessage i c hpc fun h => herr ((checkError_iff _).mpr h)
      · simp at hstep
  | printError i =>
      simp only [advance] at hstep
      split at hstep
      · next c hpc => exact Option.some.inj hstep ▸ .printError i c hpc
      · simp at hstep
  | exit i =>
      simp only [advance] at hstep
      split at hstep
      · next c hpc => exact Option.some.inj hstep ▸ .exit i c hpc
      · simp at hstep

/-! ## Who has which mutex, and what it has printed -/

/-- The call that has its mutex. -/
def Pc.held : Pc κ μ → Option (Call κ μ)
  | .checking c => some c
  | .reporting c => some c
  | .exiting c => some c
  | _ => none

/-- What the call has printed. -/
def Pc.printed : Pc κ μ → List (Call κ μ × Piece)
  | .reporting c => [(c, .message)]
  | .exiting c => [(c, .message), (c, .error)]
  | _ => []

/-- What the calls of one instance have printed. -/
def report (s : State κ μ θ) (k : κ) : List (Call κ μ × Piece) :=
  s.out.filter fun line => line.1.args = k

/-- The calls of one instance that have returned. -/
def returnedFrom (s : State κ μ θ) (k : κ) : List (θ × Call κ μ) :=
  s.returned.filter fun r => r.2.args = k

structure Inv (s : State κ μ θ) : Prop where
  mutex : ∀ k i, s.mutex k = some i ↔ ∃ c, (s.pc i).held = some c ∧ c.args = k
  printed : ∀ k, report s k = (s.mutex k).elim [] fun i => (s.pc i).printed
  failed : ∀ i, ∀ line ∈ (s.pc i).printed, line.1.err ≠ .success
  returned : ∀ r ∈ s.returned, r.2.err = .success

omit [DecidableEq κ] [DecidableEq θ] in
theorem Pc.held_of_mem_printed {pc : Pc κ μ} {line : Call κ μ × Piece} (h : line ∈ pc.printed) :
    pc.held = some line.1 := by
  cases pc with
  | outside | locking | checking => simp [printed] at h
  | reporting c =>
      obtain rfl := List.mem_singleton.mp h
      rfl
  | exiting c =>
      rcases List.mem_pair.mp h with rfl | rfl <;> rfl

omit [DecidableEq θ] in
theorem inv_init : Inv (State.init : State κ μ θ) :=
  ⟨by simp [State.init, Pc.held], fun _ => rfl, by simp [State.init, Pc.printed],
    by simp [State.init]⟩

variable {s t : State κ μ θ}

omit [DecidableEq θ] in
theorem Inv.mutex_held (h : Inv s) {i : θ} {c : Call κ μ} (hheld : (s.pc i).held = some c) :
    s.mutex c.args = some i := (h.mutex _ _).mpr ⟨c, hheld, rfl⟩

omit [DecidableEq θ] in
theorem Inv.mutex_ne (h : Inv s) {i : θ} {k : κ}
    (hother : ∀ c, (s.pc i).held = some c → c.args ≠ k) : s.mutex k ≠ some i := by
  intro hmutex
  obtain ⟨c, hheld, hargs⟩ := (h.mutex k i).mp hmutex
  exact hother c hheld hargs

omit [DecidableEq κ] in
/-- A move of a thread that does not have the mutex of an instance. -/
theorem elim_printed_update {k : κ} {i : θ} (hk : s.mutex k ≠ some i) (pc : Pc κ μ) :
    ((s.mutex k).elim [] fun j => (Function.update s.pc i pc j).printed) =
      (s.mutex k).elim [] fun j => (s.pc j).printed := by
  cases hmutex : s.mutex k with
  | none => rfl
  | some j =>
      have hne : j ≠ i := fun h => hk (h ▸ hmutex)
      simp only [Option.elim_some, Function.update_of_ne hne]

omit [DecidableEq κ] in
/-- A move of a thread that neither takes nor frees a mutex. -/
theorem held_update {i : θ} {pc : Pc κ μ} (hheld : pc.held = (s.pc i).held) (j : θ) :
    (Function.update s.pc i pc j).held = (s.pc j).held := by
  by_cases hj : j = i
  · rw [hj, Function.update_self, hheld]
  · rw [Function.update_of_ne hj]

omit [DecidableEq κ] in
theorem failed_update {i : θ} {pc : Pc κ μ}
    (hfailed : ∀ j, ∀ line ∈ (s.pc j).printed, line.1.err ≠ .success)
    (hpc : ∀ line ∈ pc.printed, line.1.err ≠ .success) (j : θ) :
    ∀ line ∈ (Function.update s.pc i pc j).printed, line.1.err ≠ .success := by
  by_cases hj : j = i
  · rw [hj, Function.update_self]
    exact hpc
  · rw [Function.update_of_ne hj]
    exact hfailed j

/-- A piece that a call prints while it has the mutex of its instance. -/
theorem Inv.print (h : Inv s) {i : θ} {c : Call κ μ} {piece : Piece} (pc : Pc κ μ)
    (hheld : (s.pc i).held = some c) (hheld' : pc.held = some c) (herr : c.err ≠ .success)
    (hprinted : pc.printed = (s.pc i).printed ++ [(c, piece)]) :
    Inv { s.move i pc with out := s.out ++ [(c, piece)] } where
  mutex := fun k j => by
    have hsame := held_update (hheld'.trans hheld.symm) j
    show s.mutex k = some j ↔ ∃ c, (Function.update s.pc i pc j).held = some c ∧ c.args = k
    rw [hsame]
    exact h.mutex k j
  printed := fun k => by
    show (s.out ++ [(c, piece)]).filter _ =
      (s.mutex k).elim [] fun j => (Function.update s.pc i pc j).printed
    have hold : s.out.filter (fun line => line.1.args = k) = _ := h.printed k
    rw [List.filter_append, hold]
    by_cases hk : c.args = k
    · have hmutex := h.mutex_held hheld
      rw [← hk, hmutex, Option.elim_some, Option.elim_some, Function.update_self, hprinted]
      simp
    · have hne : s.mutex k ≠ some i := h.mutex_ne fun c' hc' hargs => by
        rw [hheld] at hc'
        exact hk (Option.some.inj hc' ▸ hargs)
      rw [elim_printed_update hne]
      simp [hk]
  failed := failed_update h.failed fun line hline => by
    have hline' := Pc.held_of_mem_printed hline
    rw [hheld'] at hline'
    exact Option.some.inj hline' ▸ herr
  returned := h.returned

theorem Inv.call (h : Inv s) {i : θ} (c : Call κ μ) (hpc : s.pc i = .outside) :
    Inv (s.move i (.locking c)) where
  mutex := fun k j => by
    show s.mutex k = some j ↔ ∃ c', (Function.update s.pc i (.locking c) j).held = some c' ∧ _
    rw [held_update (by rw [hpc]; rfl) j]
    exact h.mutex k j
  printed := fun k => by
    have hne : s.mutex k ≠ some i := h.mutex_ne fun c' hc' => by simp [hpc, Pc.held] at hc'
    exact (h.printed k).trans (elim_printed_update hne _).symm
  failed := failed_update h.failed (by simp [Pc.printed])
  returned := h.returned

theorem Inv.lock (h : Inv s) {i : θ} {c : Call κ μ} (hpc : s.pc i = .locking c)
    (hfree : s.mutex c.args = none) :
    Inv { s.move i (.checking c) with mutex := Function.update s.mutex c.args (some i) } where
  mutex := fun k j => by
    show Function.update s.mutex c.args (some i) k = some j ↔
      ∃ c', (Function.update s.pc i (.checking c) j).held = some c' ∧ c'.args = k
    by_cases hj : j = i
    · rw [hj, Function.update_self]
      by_cases hk : k = c.args
      · rw [hk, Function.update_self]
        exact ⟨fun _ => ⟨c, rfl, rfl⟩, fun _ => rfl⟩
      · rw [Function.update_of_ne hk]
        constructor
        · intro hmutex
          exact absurd hmutex (h.mutex_ne fun c' hc' => by simp [hpc, Pc.held] at hc')
        · rintro ⟨c', hc', hargs⟩
          exact absurd (Option.some.inj hc' ▸ hargs.symm) hk
    · rw [Function.update_of_ne hj]
      by_cases hk : k = c.args
      · rw [hk, Function.update_self]
        constructor
        · intro hi
          exact absurd (Option.some.inj hi).symm hj
        · rintro hheld
          rw [(h.mutex _ j).mpr hheld] at hfree
          simp at hfree
      · rw [Function.update_of_ne hk]
        exact h.mutex k j
  printed := fun k => by
    show report s k = (Function.update s.mutex c.args (some i) k).elim [] fun j =>
      (Function.update s.pc i (.checking c) j).printed
    rw [h.printed k]
    by_cases hk : k = c.args
    · rw [hk, hfree, Function.update_self, Option.elim_some, Function.update_self]
      rfl
    · have hne : s.mutex k ≠ some i := h.mutex_ne fun c' hc' => by simp [hpc, Pc.held] at hc'
      rw [Function.update_of_ne hk, elim_printed_update hne]
  failed := failed_update h.failed (by simp [Pc.printed])
  returned := h.returned

theorem Inv.unlock (h : Inv s) {i : θ} {c : Call κ μ} (hpc : s.pc i = .checking c)
    (herr : c.err = .success) :
    Inv { s.move i .outside with
      mutex := Function.update s.mutex c.args none
      returned := s.returned ++ [(i, c)] } where
  mutex := fun k j => by
    have hheld : (s.pc i).held = some c := by rw [hpc]; rfl
    show Function.update s.mutex c.args none k = some j ↔
      ∃ c', (Function.update s.pc i .outside j).held = some c' ∧ c'.args = k
    by_cases hj : j = i
    · rw [hj, Function.update_self]
      have hnone : Function.update s.mutex c.args none k ≠ some i := by
        by_cases hk : k = c.args
        · simp [hk]
        · rw [Function.update_of_ne hk]
          refine h.mutex_ne fun c' hc' hargs => hk ?_
          rw [hheld] at hc'
          exact Option.some.inj hc' ▸ hargs.symm
      exact ⟨fun hmutex => absurd hmutex hnone, fun ⟨c', hc', _⟩ => by simp [Pc.held] at hc'⟩
    · rw [Function.update_of_ne hj]
      by_cases hk : k = c.args
      · rw [hk, Function.update_self]
        constructor
        · intro hnone
          simp at hnone
        · intro hother
          have hmutex := (h.mutex _ j).mpr hother
          rw [h.mutex_held hheld] at hmutex
          exact absurd (Option.some.inj hmutex).symm hj
      · rw [Function.update_of_ne hk]
        exact h.mutex k j
  printed := fun k => by
    have hheld : (s.pc i).held = some c := by rw [hpc]; rfl
    show report s k = (Function.update s.mutex c.args none k).elim [] fun j =>
      (Function.update s.pc i .outside j).printed
    rw [h.printed k]
    by_cases hk : k = c.args
    · rw [hk, h.mutex_held hheld, Function.update_self, Option.elim_some, hpc]
      rfl
    · have hne : s.mutex k ≠ some i := h.mutex_ne fun c' hc' hargs => by
        rw [hheld] at hc'
        exact hk (Option.some.inj hc' ▸ hargs.symm)
      rw [Function.update_of_ne hk, elim_printed_update hne]
  failed := failed_update h.failed (by simp [Pc.printed])
  returned := fun r hr => by
    rcases List.mem_append.mp hr with hold | hnew
    · exact h.returned r hold
    · rw [List.mem_singleton.mp hnew]
      exact herr

theorem Inv.step (h : Inv s) {ev : Event κ μ θ} (hstep : FailStop.step s ev = some t) : Inv t := by
  cases (step_effect hstep).2 with
  | call i c hpc => exact h.call c hpc
  | lock i c hpc hfree => exact h.lock hpc hfree
  | unlock i c hpc herr => exact h.unlock hpc herr
  | printMessage i c hpc herr =>
      exact h.print (.reporting c) (by rw [hpc]; rfl) rfl herr (by rw [hpc]; rfl)
  | printError i c hpc =>
      have herr : c.err ≠ .success := h.failed i (c, .message) (by simp [hpc, Pc.printed])
      exact h.print (.exiting c) (by rw [hpc]; rfl) rfl herr (by rw [hpc]; rfl)
  | exit i c hpc => exact ⟨h.mutex, h.printed, h.failed, h.returned⟩

theorem inv_of_reachable (hs : (machine κ μ θ).Reachable s) : Inv s :=
  hs.invariant inv_init fun _ _ _ h hstep => h.step hstep

omit [DecidableEq θ] in
/-- Whoever has the mutex of an instance whose report has begun has failed. -/
theorem Inv.holder_of_report (h : Inv s) {k : κ} (hreport : report s k ≠ []) :
    ∃ i c, s.mutex k = some i ∧ c.args = k ∧ c.err ≠ .success ∧
      (s.pc i = .reporting c ∧ report s k = [(c, .message)] ∨
        s.pc i = .exiting c ∧ report s k = [(c, .message), (c, .error)]) := by
  have hprinted := h.printed k
  cases hmutex : s.mutex k with
  | none => exact absurd (by rw [hprinted, hmutex]; rfl) hreport
  | some i =>
      rw [hmutex, Option.elim_some] at hprinted
      obtain ⟨c, hheld, hargs⟩ := (h.mutex k i).mp hmutex
      have hfailed := h.failed i
      cases hpc : s.pc i with
      | outside => simp [hpc, Pc.held] at hheld
      | locking c' => simp [hpc, Pc.held] at hheld
      | checking c' => exact absurd (by rw [hprinted, hpc]; rfl) hreport
      | reporting c' =>
          obtain rfl : c' = c := by simpa [hpc, Pc.held] using hheld
          rw [hpc] at hprinted hfailed
          exact ⟨i, c', rfl, hargs, hfailed (c', .message) (by simp [Pc.printed]),
            .inl ⟨hpc, hprinted⟩⟩
      | exiting c' =>
          obtain rfl : c' = c := by simpa [hpc, Pc.held] using hheld
          rw [hpc] at hprinted hfailed
          exact ⟨i, c', rfl, hargs, hfailed (c', .message) (by simp [Pc.printed]),
            .inr ⟨hpc, hprinted⟩⟩

/-- Nothing of an instance returns once its report has begun. -/
theorem Inv.returnedFrom_step (h : Inv s) {k : κ} (hreport : report s k ≠ []) {ev : Event κ μ θ}
    (hstep : FailStop.step s ev = some t) :
    report s k <+: report t k ∧ returnedFrom t k = returnedFrom s k := by
  have hmore (line : Call κ μ × Piece) : report s k <+: (s.out ++ [line]).filter
      fun line => line.1.args = k := by
    rw [List.filter_append]
    exact List.prefix_append _ _
  cases (step_effect hstep).2 with
  | call | lock | exit => exact ⟨List.prefix_rfl, rfl⟩
  | printMessage | printError => exact ⟨hmore _, rfl⟩
  | unlock i c hpc herr =>
      refine ⟨List.prefix_rfl, ?_⟩
      obtain ⟨j, c', hmutex, hargs, -, hj⟩ := h.holder_of_report hreport
      have hother : c.args ≠ k := by
        intro hk
        -- the thread that unlocks is the one that prints the report
        have hi := h.mutex_held (i := i) (c := c) (by rw [hpc]; rfl)
        rw [hk, hmutex] at hi
        obtain rfl := Option.some.inj hi
        rcases hj with ⟨hpc', -⟩ | ⟨hpc', -⟩ <;> simp [hpc] at hpc'
      show (s.returned ++ [(i, c)]).filter _ = _
      rw [List.filter_append]
      simp [returnedFrom, hother]

theorem step_exit {i : θ} {c : Call κ μ} (hgoing : s.ended = false) (hpc : s.pc i = .exiting c) :
    ∃ t, step s (.exit i) = some t ∧ t.ended = true :=
  ⟨{ s with ended := true }, by simp [step, advance, hgoing, hpc], rfl⟩

/-- A report of an instance stays in one piece while other threads print theirs, and
there is only one: what the calls of one instance have printed is the beginning of the
report of one failed call.  Only successful calls return, and two threads never have the
mutex of one instance. -/
theorem reported_once (hs : (machine κ μ θ).Reachable s) :
    (∀ k, report s k ≠ [] → ∃ c : Call κ μ, c.args = k ∧ c.err ≠ .success ∧
      report s k <+: [(c, .message), (c, .error)]) ∧
    (∀ r ∈ s.returned, r.2.err = .success) ∧
    ∀ i j c d, (s.pc i).held = some c → (s.pc j).held = some d → c.args = d.args → i = j := by
  have h := inv_of_reachable hs
  refine ⟨fun k hreport => ?_, h.returned, fun i j c d hi hj hargs => ?_⟩
  · obtain ⟨i, c, -, hargs, herr, hlines⟩ := h.holder_of_report hreport
    refine ⟨c, hargs, herr, ?_⟩
    rcases hlines with ⟨-, hlines⟩ | ⟨-, hlines⟩
    · exact hlines ▸ ⟨[(c, .error)], rfl⟩
    · exact hlines ▸ List.prefix_rfl
  · have hmutex := h.mutex_held hi
    rw [hargs, h.mutex_held hj] at hmutex
    exact (Option.some.inj hmutex).symm

/-- Once a report has begun, no call of the instance returns any more, on any thread and
whatever the others do, and two more steps of the thread that prints it can end the
process. -/
theorem nothing_returns_after_report (hs : (machine κ μ θ).Reachable s) {k : κ}
    (hreport : report s k ≠ []) :
    (∀ es t, (machine κ μ θ).run s es = some t →
      returnedFrom t k = returnedFrom s k ∧ report s k <+: report t k) ∧
    (s.ended = false → ∃ es t, es.length ≤ 2 ∧ (machine κ μ θ).run s es = some t ∧
      t.ended = true) := by
  have h := inv_of_reachable hs
  constructor
  · intro es t hrun
    have hkeep : Inv t ∧ returnedFrom t k = returnedFrom s k ∧ report s k <+: report t k := by
      refine Machine.run_invariant (I := fun t => Inv t ∧ returnedFrom t k = returnedFrom s k ∧
        report s k <+: report t k) ?_ ⟨h, rfl, List.prefix_rfl⟩ hrun
      rintro u ev v ⟨hu, hreturned, hmore⟩ hstep
      have hbegun : report u k ≠ [] := fun hnil => hreport (List.prefix_nil.mp (hnil ▸ hmore))
      obtain ⟨hmore', hreturned'⟩ := hu.returnedFrom_step hbegun hstep
      exact ⟨hu.step hstep, hreturned'.trans hreturned, hmore.trans hmore'⟩
    exact hkeep.2
  · intro hgoing
    obtain ⟨i, c, -, -, -, ⟨hpc, -⟩ | ⟨hpc, -⟩⟩ := h.holder_of_report hreport
    · have hprint : step s (.printError i) =
          some { s.move i (.exiting c) with out := s.out ++ [(c, .error)] } := by
        simp [step, advance, hgoing, hpc]
      obtain ⟨t, hexit, hended⟩ := step_exit
        (s := { s.move i (.exiting c) with out := s.out ++ [(c, .error)] })
        hgoing (Function.update_self i _ s.pc)
      refine ⟨[.printError i, .exit i], t, by simp, ?_, hended⟩
      exact Option.bind_eq_some_iff.mpr ⟨_, hprint, (Machine.run_singleton _).trans hexit⟩
    · obtain ⟨t, hexit, hended⟩ := step_exit hgoing hpc
      exact ⟨[.exit i], t, by simp, (Machine.run_singleton _).trans hexit, hended⟩

/-- Two instances fail on two threads, and their reports mix. -/
def mixed : List (Event Nat String Nat) :=
  [.call 1 ⟨0, .unknown, "create mmap"⟩, .call 2 ⟨1, .notFound, "get buffer"⟩, .lock 1, .lock 2,
    .printMessage 1, .printMessage 2, .printError 1]

theorem reported_once_mixed :
    ∃ s, (machine Nat String Nat).run State.init mixed = some s ∧
      s.out.map Prod.snd = [.message, .message, .error] ∧
      ∃ c : Call Nat String, c.args = 0 ∧ c.err ≠ .success ∧
        report s 0 <+: [(c, .message), (c, .error)] := by
  refine ⟨_, rfl, rfl, ?_⟩
  exact (reported_once ⟨mixed, rfl⟩).1 0 (by simp [report])

theorem nothing_returns_after_report_mixed :
    ∃ s, (machine Nat String Nat).run State.init mixed = some s ∧
      ∀ es t, (machine Nat String Nat).run s es = some t → returnedFrom t 1 = [] :=
  ⟨_, rfl, fun es t hrun =>
    ((nothing_returns_after_report ⟨mixed, rfl⟩ (by simp [report])).1 es t hrun).1⟩

end Model
end FailStop
end DocaStdexec
