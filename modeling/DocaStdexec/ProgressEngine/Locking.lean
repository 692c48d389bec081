import DocaStdexec.Lib.Mutex
import DocaStdexec.ProgressEngine.RunLoop

/-!
# The queue operations, access by access

`RunLoop` takes `push_back_` and `pop_front_` for single steps, because both hold
`mutex_`.  Here every access that they make to the list is a step, and while one thread is
in the middle of an operation the others may execute tasks, fail to lock, and overwrite
storage that is neither queued nor being pushed.  The order of the accesses is that of the
source: the right operand of an assignment comes before the left one, and `std::exchange`
is called after its second argument has been read.

`locked_calls_atomic` says that this machine cannot be told from that of `RunLoop`: the
operations take effect one after the other, when they unlock.
-/

namespace DocaStdexec
namespace Locking

open Lib
open RunLoop (Loop Ptr Represents Completion pushBack popFront executeImpl)

/-- The local variables and temporaries of the two functions. -/
structure Locals (τ : Type*) where
  tail : Ptr τ
  next : Ptr τ
  second : Ptr τ

/-- Calls that take `mutex_`. -/
inductive Call (τ θ : Type*)
  | pushBack (t : τ)
  | popFront (i : θ)

/-- What happens without it. -/
inductive Other (τ θ : Type*)
  /-- Locking throws in `start`. -/
  | refuse (t : τ)
  | execute (i : θ) (stopRequested threw : Bool)
  /-- Any other use of the storage of a task. -/
  | store (t : τ) (w : Ptr τ)

/-- A state of `RunLoop` but for the list. -/
structure Rest (τ θ : Type*) where
  task : θ → Option τ
  pushed : List τ
  popped : List τ
  completed : List (τ × Completion)
  refused : List (τ × Completion)

variable {τ θ : Type*} [DecidableEq τ] [DecidableEq θ]

def Rest.state (k : Rest τ θ) (l : Loop τ) : RunLoop.State τ θ :=
  ⟨l, k.task, k.pushed, k.popped, k.completed, k.refused⟩

def Rest.Queued (k : Rest τ θ) (t : τ) : Prop := k.popped.count t < k.pushed.count t

instance (k : Rest τ θ) (t : τ) : Decidable (k.Queued t) := inferInstanceAs (Decidable (_ < _))

/-- `push_back_`. -/
def pushBackCode (t : τ) : Code (Loop τ) (Locals τ) :=
  [fun x => (x.1.setNext (.task t) .head, x.2),
   fun x => (x.1, { x.2 with tail := x.1.tail }),
   fun x => (x.1.setNext x.2.tail (.task t), x.2),
   fun x => ({ x.1 with tail := .task t }, x.2)]

/-- `pop_front_`. -/
def popFrontCode : Code (Loop τ) (Locals τ) :=
  [fun x => (x.1, { x.2 with tail := x.1.tail }),
   fun x => (x.1, { x.2 with next := x.1.next .head }),
   fun x => (if x.2.tail = x.2.next then { x.1 with tail := .head } else x.1, x.2),
   fun x => (x.1, { x.2 with next := x.1.next .head }),
   fun x => (x.1, { x.2 with second := x.1.next x.2.next }),
   -- `std::exchange`
   fun x => (x.1, { x.2 with next := x.1.next .head }),
   fun x => (x.1.setNext .head x.2.second, x.2)]

theorem exec_popFrontCode (l : Loop τ) (r : Locals τ) :
    (popFrontCode.exec (l, r)).1 = (popFront l).2 ∧
      (popFrontCode.exec (l, r)).2.next = (popFront l).1 := by
  constructor
  · unfold popFront
    simp only [popFrontCode, Code.exec_cons, Code.exec_nil]
  · rw [RunLoop.popFront_fst]
    simp only [popFrontCode, Code.exec_cons, Code.exec_nil]
    split <;> rfl

variable (τ θ) in
/-- The list behind `mutex_`. -/
def mutex : Mutex (Loop τ) (Rest τ θ) (Locals τ) (Call τ θ) (Other τ θ) where
  memory := Loop.init
  rest := ⟨fun _ => none, [], [], [], []⟩
  enter k
    | .pushBack t => if k.Queued t then none else some (pushBackCode t, ⟨.head, .head, .head⟩)
    | .popFront i =>
        match k.task i with
        | some _ => none
        | none => some (popFrontCode, ⟨.head, .head, .head⟩)
  leave k
    | .pushBack t, _ => { k with pushed := k.pushed ++ [t] }
    | .popFront i, r =>
        match r.next with
        | .head => k
        | .task t => { k with task := Function.update k.task i (some t), popped := k.popped ++ [t] }
  touch
    | .store t w, l => l.setNext (.task t) w
    | _, l => l
  move k
    | .refuse t =>
        if k.Queued t then none else some { k with refused := k.refused ++ [(t, .setError)] }
    | .execute i stopRequested threw =>
        match k.task i with
        | none => none
        | some t =>
            some { k with
              task := Function.update k.task i none
              completed := k.completed ++ [(t, executeImpl stopRequested threw)] }
    | .store t _ => if k.Queued t then none else some k
  apart
    | .pushBack t, .store u _ => t ≠ u
    | _, _ => true

/-- The step of `RunLoop` that a call is. -/
def Call.event : Call τ θ → RunLoop.Event τ θ
  | .pushBack t => .start t true
  | .popFront i => .popFront i

def Other.event : Other τ θ → RunLoop.Event τ θ
  | .refuse t => .start t false
  | .execute i stopRequested threw => .execute i stopRequested threw
  | .store t w => .store t w

/-- A call in one step is a step of `RunLoop`. -/
theorem enter_step {k : Rest τ θ} {e : Call τ θ} {code : Code (Loop τ) (Locals τ) × Locals τ}
    (henter : (mutex τ θ).enter k e = some code) (l : Loop τ) :
    RunLoop.step (k.state l) e.event =
      some (((mutex τ θ).leave k e (code.1.exec (l, code.2)).2).state
        (code.1.exec (l, code.2)).1) := by
  cases e with
  | pushBack t =>
      obtain ⟨hfresh, hsome⟩ := Option.ite_none_left_eq_some.mp henter
      obtain rfl := Option.some.inj hsome
      have hqueued : ¬(k.state l).Queued t := hfresh
      show RunLoop.step (k.state l) (.start t true) = _
      simp only [RunLoop.step, if_neg hqueued, if_true]
      rfl
  | popFront i =>
      cases htask : k.task i with
      | some t => simp [mutex, htask] at henter
      | none =>
          simp only [mutex, htask, Option.some.injEq] at henter
          subst henter
          obtain ⟨hlist, hresult⟩ := exec_popFrontCode l ⟨.head, .head, .head⟩
          have hidle : (k.state l).task i = none := htask
          show RunLoop.step (k.state l) (.popFront i) = _
          simp only [RunLoop.step, hidle, mutex, hresult, hlist]
          cases hpop : popFront l with
          | mk p loop =>
              have hstate : popFront (k.state l).loop = (p, loop) := hpop
              rw [hstate]
              cases p <;> rfl

theorem move_step {k k' : Rest τ θ} {d : Other τ θ} (hmove : (mutex τ θ).move k d = some k')
    (l : Loop τ) :
    RunLoop.step (k.state l) d.event = some (k'.state ((mutex τ θ).touch d l)) := by
  cases d with
  | refuse t =>
      obtain ⟨hfresh, hsome⟩ := Option.ite_none_left_eq_some.mp hmove
      obtain rfl := Option.some.inj hsome
      have hqueued : ¬(k.state l).Queued t := hfresh
      show RunLoop.step (k.state l) (.start t false) = _
      simp only [RunLoop.step, if_neg hqueued]
      rfl
  | execute i stopRequested threw =>
      cases htask : k.task i with
      | none => simp [mutex, htask] at hmove
      | some t =>
          simp only [mutex, htask, Option.some.injEq] at hmove
          subst hmove
          have hhand : (k.state l).task i = some t := htask
          show RunLoop.step (k.state l) (.execute i stopRequested threw) = _
          simp only [RunLoop.step, hhand]
          rfl
  | store t w =>
      obtain ⟨hfresh, hsome⟩ := Option.ite_none_left_eq_some.mp hmove
      obtain rfl := Option.some.inj hsome
      have hqueued : ¬(k.state l).Queued t := hfresh
      exact if_neg hqueued

/-- A step of the coarse machine is a step of `RunLoop`. -/
theorem coarse_step {u v : Loop τ × Rest τ θ} {ev : Call τ θ ⊕ Other τ θ}
    (hstep : (mutex τ θ).coarse.step u ev = some v) :
    RunLoop.step (u.2.state u.1) (ev.elim Call.event Other.event) = some (v.2.state v.1) := by
  cases ev with
  | inl e =>
      obtain ⟨code, henter, rfl⟩ := Option.map_eq_some_iff.mp hstep
      exact enter_step henter u.1
  | inr d =>
      obtain ⟨k, hmove, rfl⟩ := Option.map_eq_some_iff.mp hstep
      exact move_step hmove u.1

theorem coarse_refines :
    (mutex τ θ).coarse.Simulation (RunLoop.machine τ θ) fun u b => b = u.2.state u.1 where
  init := rfl
  step := by
    rintro u v ev _ rfl hstep
    exact ⟨[ev.elim Call.event Other.event], _,
      (Machine.run_singleton _).trans (coarse_step hstep), rfl⟩

/-- The list holds what has been pushed and not popped. -/
def Shaped (l : Loop τ) (k : Rest τ θ) : Prop := ∃ q, RunLoop.Refines (k.state l) q

omit [DecidableEq θ] in
theorem setNext_comm (l : Loop τ) {p q : Ptr τ} (hpq : p ≠ q) (v w : Ptr τ) :
    (l.setNext p v).setNext q w = (l.setNext q w).setNext p v := by
  have hnext : Function.update (Function.update l.next p v) q w =
      Function.update (Function.update l.next q w) p v := Function.update_comm hpq v w l.next
  exact Loop.ext hnext rfl

omit [DecidableEq θ] in
theorem setNext_next_of_ne (l : Loop τ) {p q : Ptr τ} (hpq : q ≠ p) (v : Ptr τ) :
    (l.setNext p v).next q = l.next q := by
  show Function.update l.next p v q = l.next q
  exact Function.update_of_ne hpq v l.next

/-- Overwriting a task that `push_back_` does not push and that is not the last one. -/
theorem commutes_pushBackCode {l : Loop τ} {t u : τ} (htu : t ≠ u) (htail : l.tail ≠ .task u)
    (w : Ptr τ) (r : Locals τ) :
    Code.Commutes (fun l => l.setNext (.task u) w) (pushBackCode t) (l, r) := by
  refine ⟨?_, rfl, ?_, rfl, trivial⟩
  · exact congrArg (·, r) (setNext_comm l (fun h => htu (Ptr.task.inj h).symm) _ _)
  · exact congrArg (·, _) (setNext_comm (l.setNext (.task t) .head) htail.symm _ _)

/-- Overwriting a task that is not the first one. -/
theorem commutes_popFrontCode {l : Loop τ} {u : τ} (hfront : l.next .head ≠ .task u)
    (w : Ptr τ) (r : Locals τ) :
    Code.Commutes (fun l => l.setNext (.task u) w) popFrontCode (l, r) := by
  have hhead : Ptr.head ≠ Ptr.task u := by simp
  -- the list after the assignment to `head.tail`
  obtain ⟨m, hm⟩ : ∃ m, m = if l.tail = l.next .head then { l with tail := .head } else l :=
    ⟨_, rfl⟩
  have hnext : m.next .head ≠ .task u := by
    rw [hm]
    split <;> exact hfront
  have hread := setNext_next_of_ne m hhead w
  have hsecond := setNext_next_of_ne m hnext w
  refine ⟨rfl, ?_, ?_, ?_⟩
  · exact Prod.ext rfl (congrArg (Locals.mk l.tail · r.second) (setNext_next_of_ne l hhead w))
  · refine Prod.ext ?_ rfl
    dsimp only
    split <;> rfl
  · dsimp only
    rw [← hm]
    refine ⟨?_, ?_, ?_, ?_, trivial⟩
    · exact Prod.ext rfl (congrArg (Locals.mk l.tail · r.second) hread)
    · exact Prod.ext rfl (congrArg (Locals.mk l.tail (m.next .head)) hsecond)
    · exact Prod.ext rfl (congrArg (Locals.mk l.tail · (m.next (m.next .head))) hread)
    · exact Prod.ext (setNext_comm m hhead.symm w _) rfl

/-- What the threads do without the mutex leaves a call possible. -/
theorem enter_of_move {k k' : Rest τ θ} {e : Call τ θ} {d : Other τ θ}
    {code : Code (Loop τ) (Locals τ) × Locals τ} (henter : (mutex τ θ).enter k e = some code)
    (hmove : (mutex τ θ).move k d = some k') : (mutex τ θ).enter k' e = some code := by
  cases d with
  | refuse t =>
      obtain ⟨-, hsome⟩ := Option.ite_none_left_eq_some.mp hmove
      obtain rfl := Option.some.inj hsome
      cases e <;> exact henter
  | execute i stopRequested threw =>
      cases htask : k.task i with
      | none => simp [mutex, htask] at hmove
      | some t =>
          simp only [mutex, htask, Option.some.injEq] at hmove
          subst hmove
          cases e with
          | pushBack u => exact henter
          | popFront j =>
              have hne : j ≠ i := by
                rintro rfl
                simp [mutex, htask] at henter
              simpa only [mutex, Function.update_of_ne hne] using henter
  | store t w =>
      obtain ⟨-, hsome⟩ := Option.ite_none_left_eq_some.mp hmove
      exact Option.some.inj hsome ▸ henter

theorem harmless : Mutex.Harmless (mutex τ θ) Shaped where
  init := ⟨_, RunLoop.refines_fifo.init⟩
  step := by
    rintro s t ev ⟨q, hrefines⟩ hstep
    obtain ⟨fs, q', -, hrefines'⟩ := RunLoop.step_refines hrefines (coarse_step hstep)
    exact ⟨q', hrefines'⟩
  apart := by
    rintro m k k' e c r d ⟨q, hrefines⟩ henter hapart hmove
    refine ⟨enter_of_move henter hmove, ?_⟩
    cases d with
    | refuse t => exact Code.commutes_id c (m, r)
    | execute i stopRequested threw => exact Code.commutes_id c (m, r)
    | store u w =>
        obtain ⟨hu, -⟩ := Option.ite_none_left_eq_some.mp hmove
        have hmem : u ∉ q.contents := mt (hrefines.queued_iff u).mpr hu
        obtain ⟨htail, hfront, -⟩ := hrefines.represents.unreferenced hmem
        cases e with
        | pushBack t =>
            obtain ⟨-, hsome⟩ := Option.ite_none_left_eq_some.mp henter
            obtain ⟨rfl, rfl⟩ := Prod.mk.inj (Option.some.inj hsome)
            exact commutes_pushBackCode (by simpa [mutex] using hapart) htail w _
        | popFront i =>
            cases htask : k.task i with
            | some t => simp [mutex, htask] at henter
            | none =>
                simp only [mutex, htask, Option.some.injEq, Prod.mk.injEq] at henter
                obtain ⟨rfl, rfl⟩ := henter
                exact commutes_popFrontCode hfront w _

/-- A step of the threads, one access at a time. -/
abbrev State (τ θ : Type*) := Mutex.State (Loop τ) (Rest τ θ) (Locals τ) (Call τ θ)

variable (τ θ) in
/-- Any number of producers and of threads in `run_some`, one access at a time. -/
def machine : Machine (State τ θ) (Mutex.Event (Call τ θ) (Other τ θ)) := (mutex τ θ).fine

theorem refines_runLoop :
    (machine τ θ).Simulation (RunLoop.machine τ θ) fun s b =>
      ∃ u, Mutex.Between (mutex τ θ) Shaped s u ∧ b = u.2.state u.1 :=
  (Mutex.fine_refines harmless).trans coarse_refines

theorem length_enter_le {k : Rest τ θ} {e : Call τ θ} {code : Code (Loop τ) (Locals τ) × Locals τ}
    (henter : (mutex τ θ).enter k e = some code) : code.1.length ≤ 7 := by
  cases e with
  | pushBack t =>
      obtain ⟨-, hsome⟩ := Option.ite_none_left_eq_some.mp henter
      obtain rfl := Option.some.inj hsome
      simp [pushBackCode]
  | popFront i =>
      cases htask : k.task i with
      | some t => simp [mutex, htask] at henter
      | none =>
          simp only [mutex, htask, Option.some.injEq] at henter
          subst henter
          simp [popFrontCode]

/-- The calls under the mutex take effect one after the other: every state that the
accesses can reach has the histories of a state of `RunLoop`, with its list when the mutex
is free.  Otherwise the holder frees it with at most seven accesses more, and these lead to
the list and to the histories that the step of `RunLoop` leads to. -/
theorem locked_calls_atomic {s : State τ θ} (hs : (machine τ θ).Reachable s) :
    ∃ l, (RunLoop.machine τ θ).Reachable (s.rest.state l) ∧
      (s.holder = none → s.memory = l) ∧
      ∀ e c r, s.holder = some (e, c, r) →
        c.length ≤ 7 ∧
        (∃ t, (machine τ θ).run s (List.replicate c.length .access ++ [.unlock]) = some t ∧
          t.holder = none) ∧
        RunLoop.step (s.rest.state l) e.event =
          some (((mutex τ θ).leave s.rest e (c.exec (s.memory, r)).2).state
            (c.exec (s.memory, r)).1) := by
  obtain ⟨b, hb, ⟨l, k⟩, hbetween, rfl⟩ := refines_runLoop.reachable hs
  obtain ⟨-, hrest, hfree, hheld⟩ := hbetween
  change s.rest = k at hrest
  subst hrest
  refine ⟨l, hb, hfree, fun e c r hholder => ?_⟩
  obtain ⟨past, r₀, henter, hpast⟩ := hheld e c r hholder
  refine ⟨?_, ⟨_, Mutex.run_unlock hholder, rfl⟩, ?_⟩
  · have hlen := length_enter_le henter
    rw [List.length_append] at hlen
    omega
  · have hcall := enter_step henter l
    rw [Code.exec_append, hpast] at hcall
    exact hcall

/-- Task 7 has been pushed, while another thread overwrote task 8, and is half popped. -/
theorem locked_calls_atomic_half_popped :
    ∃ (s : State Nat Unit) (l : Loop Nat) (b : RunLoop.State Nat Unit), s.holder.isSome ∧
      (RunLoop.machine Nat Unit).Reachable (s.rest.state l) ∧
      RunLoop.step (s.rest.state l) (.popFront ()) = some b ∧ b.popped = [7] ∧
      b.loop.next .head = .head := by
  have hs : (machine Nat Unit).Reachable _ :=
    ⟨[.lock (.pushBack 7), .access, .other (.store 8 (.task 7)), .access, .access, .access,
      .unlock, .lock (.popFront ()), .access, .access, .access], rfl⟩
  obtain ⟨l, hl, -, hheld⟩ := locked_calls_atomic hs
  obtain ⟨-, -, hpop⟩ := hheld _ _ _ rfl
  exact ⟨_, l, _, rfl, hl, hpop, rfl, rfl⟩

end Locking
end DocaStdexec
