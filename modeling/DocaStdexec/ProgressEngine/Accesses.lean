import DocaStdexec.ProgressEngine.EventLoop
import DocaStdexec.ProgressEngine.Locking

/-!
# The event loop, access by access

In `EventLoop` a push and a pop are single steps.  Here they are what `Locking` makes of
them, `lock`, the single accesses to the list and `unlock`, and while one thread is in the
middle of a push the others go on: the loop thread reads `stop_`, executes a task or polls
DOCA, and other threads start operations, cannot lock, or call `finish`.

`accesses_unfold` says that nothing of what is known about the event loop is lost: the loop
still executes the forest of what has been started, each task and operation at most once
and a child after its parent.
-/

namespace DocaStdexec
namespace Accesses

open Lib
open RunLoop (Loop Ptr Represents pushBack popFront)
open Shutdown (Pc)
open EventLoop (Item Work Event Free atOnce pending)
open Locking (Locals pushBackCode popFrontCode exec_popFrontCode)

/-- A state of `EventLoop` but for the list. -/
structure Rest (τ ω : Type*) where
  work : τ → Work τ ω
  queue : List τ
  hand : Option τ
  running : Forest (Item τ ω)
  outstanding : Forest (Item τ ω)
  pc : Pc
  stop_ : Bool
  log : List (Item τ ω)
  started : Forest (Item τ ω)

variable {τ ω : Type*} [DecidableEq τ]

def Rest.state (k : Rest τ ω) (l : Loop τ) : EventLoop.State τ ω :=
  ⟨l, k.work, k.queue, k.hand, k.running, k.outstanding, k.pc, k.stop_, k.log, k.started⟩

/-- A task is pushed; DOCA gets an operation without the mutex. -/
def enterStart (k : Rest τ ω) (o : Work τ ω) : Option (Code (Loop τ) (Locals τ) × Locals τ) :=
  match o.root with
  | .task j =>
      if Free (k.state Loop.init) o then some (pushBackCode j.task, ⟨.head, .head, .head⟩) else none
  | .refused _ | .operation _ => none

/-- What a finished push changes besides the list. -/
def leaveStart (k : Rest τ ω) (o : Work τ ω) : Rest τ ω :=
  match o.root with
  | .task j => { k with work := Function.update k.work j.task o, queue := k.queue ++ [j.task] }
  | .refused _ | .operation _ => k

/-- A push that cannot lock does not come to the list. -/
def moveStart (k : Rest τ ω) (o : Work τ ω) : Option (Rest τ ω) :=
  match o.root with
  | .task _ => none
  | .refused _ =>
      if Free (k.state Loop.init) o then
        some { k with log := k.log ++ [o.root], running := o.children ++ k.running }
      else none
  | .operation _ => some { k with outstanding := k.outstanding ++ [o] }

/-- The list behind `mutex_`. -/
def mutex (work : τ → Work τ ω) :
    Mutex (Loop τ) (Rest τ ω) (Locals τ) (Event τ ω) (Event τ ω) where
  memory := Loop.init
  rest := ⟨work, [], none, [], [], .check, false, [], []⟩
  enter k
    | .start o => enterStart k o
    | .startNext =>
        match k.running with
        | o :: _ => enterStart k o
        | [] => none
    | .popFront =>
        match k.pc, k.hand, k.running with
        | .runSome, none, [] => some (popFrontCode, ⟨.head, .head, .head⟩)
        | _, _, _ => none
    | _ => none
  leave k
    | .start o, _ => leaveStart { k with started := k.started ++ [o] } o
    | .startNext, _ =>
        match k.running with
        | o :: rest => leaveStart { k with running := rest } o
        | [] => k
    | .popFront, r =>
        match r.next with
        | .head => { k with pc := .progress }
        | .task t => { k with queue := k.queue.tail, hand := some t }
    | _, _ => k
  touch _ l := l
  move k
    | .start o =>
        if (atOnce o).isEmpty then moveStart { k with started := k.started ++ [o] } o else none
    | .finish => some { k with stop_ := true }
    | .readStop =>
        match k.pc with
        | .check => some { k with pc := if k.stop_ then .returned else .runSome }
        | _ => none
    | .popFront => none
    | .execute =>
        match k.hand with
        | some t =>
            some { k with
              hand := none
              log := k.log ++ [(k.work t).root]
              running := (k.work t).children }
        | none => none
    | .startNext =>
        match k.running with
        | o :: rest => moveStart { k with running := rest } o
        | [] => none
    | .callback i =>
        match k.pc, k.running, k.outstanding[i]? with
        | .progress, [], some o =>
            some { k with
              outstanding := k.outstanding.eraseIdx i
              log := k.log ++ [o.root]
              running := o.children }
        | _, _, _ => none
    | .progress n =>
        match k.pc, k.running with
        | .progress, [] => some { k with pc := if n = 0 then .check else .progress }
        | _, _ => none
  apart e d := decide ¬(e.OnLoop ∧ d.OnLoop)

/-! ## One call is one step -/

theorem enterStart_eq {k : Rest τ ω} {o : Work τ ω} {code : Code (Loop τ) (Locals τ) × Locals τ}
    (henter : enterStart k o = some code) (l : Loop τ) :
    Free (k.state l) o ∧ atOnce o = [] ∧
      EventLoop.start (k.state l) o = (leaveStart k o).state (code.1.exec (l, code.2)).1 := by
  cases hroot : o.root with
  | task j =>
      simp only [enterStart, hroot] at henter
      obtain ⟨hfree, hsome⟩ := Option.ite_none_right_eq_some.mp henter
      obtain rfl := Option.some.inj hsome
      simp only [EventLoop.start, leaveStart, atOnce, hroot]
      exact ⟨hfree, trivial, rfl⟩
  | refused t => simp [enterStart, hroot] at henter
  | operation op => simp [enterStart, hroot] at henter

theorem moveStart_eq {k k' : Rest τ ω} {o : Work τ ω} (hmove : moveStart k o = some k')
    (l : Loop τ) :
    Free (k.state l) o ∧ EventLoop.start (k.state l) o = k'.state l := by
  cases hroot : o.root with
  | task j => simp [moveStart, hroot] at hmove
  | refused t =>
      simp only [moveStart, hroot] at hmove
      obtain ⟨hfree, hsome⟩ := Option.ite_none_right_eq_some.mp hmove
      obtain rfl := Option.some.inj hsome
      simp only [EventLoop.start, hroot]
      exact ⟨hfree, rfl⟩
  | operation op =>
      simp only [moveStart, hroot, Option.some.injEq] at hmove
      subst hmove
      simp only [EventLoop.start, Free, hroot]
      exact ⟨fun t ht => (nomatch ht), rfl⟩

/-- A call in one step is a step of `EventLoop`. -/
theorem enter_step {work : τ → Work τ ω} {k : Rest τ ω} {ev : Event τ ω}
    {code : Code (Loop τ) (Locals τ) × Locals τ} (henter : (mutex work).enter k ev = some code)
    (l : Loop τ) :
    EventLoop.step (k.state l) ev =
      some (((mutex work).leave k ev (code.1.exec (l, code.2)).2).state
        (code.1.exec (l, code.2)).1) := by
  cases ev with
  | start o =>
      obtain ⟨hfree, hatOnce, hstart⟩ :=
        enterStart_eq (k := { k with started := k.started ++ [o] }) henter l
      have hguard : Free (k.state l) o ∧ (atOnce o).isEmpty :=
        ⟨hfree, List.isEmpty_iff.mpr hatOnce⟩
      exact (if_pos hguard).trans (congrArg some hstart)
  | startNext =>
      simp only [mutex] at henter
      split at henter
      · next o rest hrunning =>
          obtain ⟨hfree, -, hstart⟩ := enterStart_eq (k := { k with running := rest }) henter l
          have hfree' : Free (k.state l) o := hfree
          have hrunning' : (k.state l).running = o :: rest := hrunning
          simp only [EventLoop.step, hrunning', if_pos hfree', mutex, hrunning]
          exact congrArg some hstart
      · cases henter
  | popFront =>
      simp only [mutex] at henter
      split at henter
      · next hpc hhand hrunning =>
          obtain rfl := Option.some.inj henter
          obtain ⟨hlist, hresult⟩ := exec_popFrontCode l ⟨.head, .head, .head⟩
          obtain ⟨work', queue, hand, running, outstanding, pc, stop_, log, started⟩ := k
          obtain rfl : pc = .runSome := hpc
          obtain rfl : hand = none := hhand
          obtain rfl : running = [] := hrunning
          simp only [EventLoop.step, Rest.state, mutex, hresult, hlist]
          cases popFront l with
          | mk p loop => cases p <;> rfl
      · cases henter
  | finish => cases henter
  | readStop => cases henter
  | execute => cases henter
  | callback i => cases henter
  | progress n => cases henter

theorem move_step {work : τ → Work τ ω} {k k' : Rest τ ω} {ev : Event τ ω}
    (hmove : (mutex work).move k ev = some k') (l : Loop τ) :
    EventLoop.step (k.state l) ev = some (k'.state l) := by
  cases ev with
  | start o =>
      obtain ⟨hatOnce, hmove⟩ := Option.ite_none_right_eq_some.mp hmove
      obtain ⟨hfree, hstart⟩ := moveStart_eq hmove l
      have hguard : Free (k.state l) o ∧ (atOnce o).isEmpty := ⟨hfree, hatOnce⟩
      exact (if_pos hguard).trans (congrArg some hstart)
  | startNext =>
      simp only [mutex] at hmove
      split at hmove
      · next o rest hrunning =>
          obtain ⟨hfree, hstart⟩ := moveStart_eq hmove l
          have hfree' : Free (k.state l) o := hfree
          have hrunning' : (k.state l).running = o :: rest := hrunning
          simp only [EventLoop.step, hrunning', if_pos hfree']
          exact congrArg some hstart
      · cases hmove
  | popFront => cases hmove
  | finish => exact Option.some.inj hmove ▸ rfl
  | readStop =>
      simp only [mutex] at hmove
      split at hmove
      · next hpc =>
          have hpc' : (k.state l).pc = .check := hpc
          simp only [EventLoop.step, hpc']
          exact Option.some.inj hmove ▸ rfl
      · cases hmove
  | execute =>
      simp only [mutex] at hmove
      split at hmove
      · next t hhand =>
          have hhand' : (k.state l).hand = some t := hhand
          simp only [EventLoop.step, hhand']
          exact Option.some.inj hmove ▸ rfl
      · cases hmove
  | callback i =>
      simp only [mutex] at hmove
      split at hmove
      · next o hpc hrunning ho =>
          obtain ⟨work', queue, hand, running, outstanding, pc, stop_, log, started⟩ := k
          obtain rfl : pc = .progress := hpc
          obtain rfl : running = [] := hrunning
          simp only [EventLoop.step, Rest.state]
          rw [ho]
          exact Option.some.inj hmove ▸ rfl
      · cases hmove
  | progress n =>
      simp only [mutex] at hmove
      split at hmove
      · next hpc hrunning =>
          obtain ⟨work', queue, hand, running, outstanding, pc, stop_, log, started⟩ := k
          obtain rfl : pc = .progress := hpc
          obtain rfl : running = [] := hrunning
          exact Option.some.inj hmove ▸ rfl
      · cases hmove

theorem coarse_step {work : τ → Work τ ω} {u v : Loop τ × Rest τ ω} {ev : Event τ ω ⊕ Event τ ω}
    (hstep : (mutex work).coarse.step u ev = some v) :
    EventLoop.step (u.2.state u.1) (ev.elim id id) = some (v.2.state v.1) := by
  cases ev with
  | inl e =>
      obtain ⟨code, henter, rfl⟩ := Option.map_eq_some_iff.mp hstep
      exact enter_step henter u.1
  | inr d =>
      obtain ⟨k, hmove, rfl⟩ := Option.map_eq_some_iff.mp hstep
      exact move_step hmove u.1

theorem coarse_refines (work : τ → Work τ ω) :
    (mutex work).coarse.Simulation (EventLoop.machine work) fun u b => b = u.2.state u.1 where
  init := rfl
  step := by
    rintro u v ev _ rfl hstep
    exact ⟨[ev.elim id id], _, (Machine.run_singleton _).trans (coarse_step hstep), rfl⟩

/-! ## Between the accesses -/

omit [DecidableEq τ] in
theorem free_of_frame {k k' : Rest τ ω} {o : Work τ ω} {l : Loop τ} (h : Free (k.state l) o)
    (hqueue : k'.queue = k.queue) (hhand : k'.hand = k.hand ∨ k'.hand = none) :
    Free (k'.state l) o := by
  intro t ht
  obtain ⟨hnot, hne⟩ := h t ht
  refine ⟨?_, ?_⟩
  · show t ∉ k'.queue
    rw [hqueue]
    exact hnot
  · show k'.hand ≠ some t
    rcases hhand with hsame | hnone
    · rw [hsame]
      exact hne
    · simp [hnone]

/-- A push that can begin can still begin after others have moved. -/
theorem enterStart_of_frame {k k' : Rest τ ω} {o : Work τ ω}
    {code : Code (Loop τ) (Locals τ) × Locals τ} (henter : enterStart k o = some code)
    (hqueue : k'.queue = k.queue) (hhand : k'.hand = k.hand ∨ k'.hand = none) :
    enterStart k' o = some code := by
  cases hroot : o.root with
  | task j =>
      simp only [enterStart, hroot] at henter ⊢
      obtain ⟨hfree, hsome⟩ := Option.ite_none_right_eq_some.mp henter
      rw [if_pos (free_of_frame hfree hqueue hhand), hsome]
  | refused t => simp [enterStart, hroot] at henter
  | operation op => simp [enterStart, hroot] at henter

/-- What is done without the mutex leaves the queue alone, and what other threads do leaves
the loop thread alone. -/
structure Frame (k k' : Rest τ ω) (ev : Event τ ω) : Prop where
  queue : k'.queue = k.queue
  hand : k'.hand = k.hand ∨ k'.hand = none
  loop : ¬ev.OnLoop → k'.hand = k.hand ∧ k'.running = k.running ∧ k'.pc = k.pc

theorem moveStart_frame {k k' : Rest τ ω} {o : Work τ ω} (hmove : moveStart k o = some k') :
    k'.queue = k.queue ∧ k'.hand = k.hand ∧ k'.running = atOnce o ++ k.running ∧
      k'.pc = k.pc := by
  unfold moveStart at hmove
  unfold atOnce
  cases hroot : o.root with
  | task j => simp [hroot] at hmove
  | refused t =>
      simp only [hroot] at hmove
      obtain ⟨-, hsome⟩ := Option.ite_none_right_eq_some.mp hmove
      obtain rfl := Option.some.inj hsome
      exact ⟨rfl, rfl, rfl, rfl⟩
  | operation op =>
      simp only [hroot] at hmove
      obtain rfl := Option.some.inj hmove
      exact ⟨rfl, rfl, rfl, rfl⟩

theorem move_frame {work : τ → Work τ ω} {k k' : Rest τ ω} {ev : Event τ ω}
    (hmove : (mutex work).move k ev = some k') : Frame k k' ev := by
  cases ev with
  | start o =>
      obtain ⟨hatOnce, hmove⟩ := Option.ite_none_right_eq_some.mp hmove
      obtain ⟨hqueue, hhand, hrunning, hpc⟩ := moveStart_frame hmove
      rw [List.isEmpty_iff.mp hatOnce] at hrunning
      exact ⟨hqueue, .inl hhand, fun _ => ⟨hhand, hrunning, hpc⟩⟩
  | finish =>
      obtain rfl := Option.some.inj hmove
      exact ⟨rfl, .inl rfl, fun _ => ⟨rfl, rfl, rfl⟩⟩
  | startNext =>
      simp only [mutex] at hmove
      split at hmove
      · obtain ⟨hqueue, hhand, -⟩ := moveStart_frame hmove
        exact ⟨hqueue, .inl hhand, fun h => absurd trivial h⟩
      · cases hmove
  | popFront => cases hmove
  | readStop =>
      simp only [mutex] at hmove
      split at hmove
      · obtain rfl := Option.some.inj hmove
        exact ⟨rfl, .inl rfl, fun h => absurd trivial h⟩
      · cases hmove
  | execute =>
      simp only [mutex] at hmove
      split at hmove
      · obtain rfl := Option.some.inj hmove
        exact ⟨rfl, .inr rfl, fun h => absurd trivial h⟩
      · cases hmove
  | callback i =>
      simp only [mutex] at hmove
      split at hmove
      · obtain rfl := Option.some.inj hmove
        exact ⟨rfl, .inl rfl, fun h => absurd trivial h⟩
      · cases hmove
  | progress n =>
      simp only [mutex] at hmove
      split at hmove
      · obtain rfl := Option.some.inj hmove
        exact ⟨rfl, .inl rfl, fun h => absurd trivial h⟩
      · cases hmove

theorem harmless (work : τ → Work τ ω) : Mutex.Harmless (mutex work) fun _ _ => True where
  init := trivial
  step := fun _ _ => trivial
  apart := by
    intro m k k' e c r d _ henter hapart hmove
    refine ⟨?_, Code.commutes_id c (m, r)⟩
    have hframe := move_frame hmove
    cases e with
    | start o => exact enterStart_of_frame henter hframe.queue hframe.hand
    | startNext =>
        obtain ⟨hhand, hrunning, -⟩ :=
          hframe.loop fun hloop => of_decide_eq_true hapart ⟨trivial, hloop⟩
        simp only [mutex] at henter ⊢
        rw [hrunning]
        cases hsome : k.running with
        | nil => simp [hsome] at henter
        | cons o rest =>
            rw [hsome] at henter
            exact enterStart_of_frame henter hframe.queue (.inl hhand)
    | popFront =>
        obtain ⟨hhand, hrunning, hpc⟩ :=
          hframe.loop fun hloop => of_decide_eq_true hapart ⟨trivial, hloop⟩
        simp only [mutex] at henter ⊢
        rw [hrunning, hhand, hpc]
        exact henter
    | finish => cases henter
    | readStop => cases henter
    | execute => cases henter
    | callback i => cases henter
    | progress n => cases henter

abbrev State (τ ω : Type*) := Mutex.State (Loop τ) (Rest τ ω) (Locals τ) (Event τ ω)

/-- The loop thread and any number of other threads, one access at a time. -/
def machine (work : τ → Work τ ω) :
    Machine (State τ ω) (Mutex.Event (Event τ ω) (Event τ ω)) := (mutex work).fine

theorem refines_eventLoop (work : τ → Work τ ω) :
    (machine work).Simulation (EventLoop.machine work) fun s b =>
      ∃ u, Mutex.Between (mutex work) (fun _ _ => True) s u ∧ b = u.2.state u.1 :=
  (Mutex.fine_refines (harmless work)).trans (coarse_refines work)

theorem length_enterStart_le {k : Rest τ ω} {o : Work τ ω}
    {code : Code (Loop τ) (Locals τ) × Locals τ} (henter : enterStart k o = some code) :
    code.1.length ≤ 7 := by
  unfold enterStart at henter
  split at henter
  · obtain ⟨-, hsome⟩ := Option.ite_none_right_eq_some.mp henter
    obtain rfl := Option.some.inj hsome
    simp [pushBackCode]
  · cases henter
  · cases henter

theorem length_enter_le {work : τ → Work τ ω} {k : Rest τ ω} {ev : Event τ ω}
    {code : Code (Loop τ) (Locals τ) × Locals τ} (henter : (mutex work).enter k ev = some code) :
    code.1.length ≤ 7 := by
  cases ev with
  | start o => exact length_enterStart_le henter
  | startNext =>
      simp only [mutex] at henter
      split at henter
      · exact length_enterStart_le henter
      · cases henter
  | popFront =>
      simp only [mutex] at henter
      split at henter
      · obtain rfl := Option.some.inj henter
        simp [popFrontCode]
      · cases henter
  | finish => cases henter
  | readStop => cases henter
  | execute => cases henter
  | callback i => cases henter
  | progress n => cases henter

/-- Whatever the threads are in the middle of, the loop has executed a part of the forest of
what has been started, a child after its parent, and the rest is pending: no task and no
operation is lost or executed twice.  The list holds the queue when nobody has the mutex;
who has it needs at most seven accesses more, and all of the call together is one step of
`EventLoop`. -/
theorem accesses_unfold {work : τ → Work τ ω} {s : State τ ω} (hs : (machine work).Reachable s) :
    Forest.Unfolds s.rest.started s.rest.log (pending (s.rest.state s.memory)) ∧
      (s.rest.log ++ (pending (s.rest.state s.memory)).preorder).Perm
        s.rest.started.preorder ∧
      (s.holder = none → Represents s.memory s.rest.queue) ∧
      ∀ e c r, s.holder = some (e, c, r) → c.length ≤ 7 ∧
        ∃ l t, (EventLoop.machine work).Reachable (s.rest.state l) ∧
          (machine work).run s (List.replicate c.length .access ++ [.unlock]) = some t ∧
          t.holder = none ∧ EventLoop.step (s.rest.state l) e = some (t.rest.state t.memory) := by
  obtain ⟨b, hb, ⟨l, k⟩, hbetween, rfl⟩ := (refines_eventLoop work).reachable hs
  obtain ⟨-, hrest, hfree, hheld⟩ := hbetween
  change s.rest = k at hrest
  subst hrest
  obtain ⟨hunfolds, hperm, hlist⟩ := EventLoop.unfolds_of_reachable hb
  refine ⟨hunfolds, hperm, fun hnone => ?_, fun e c r hholder => ?_⟩
  · rw [hfree hnone]
    exact hlist
  · obtain ⟨past, r₀, henter, hpast⟩ := hheld e c r hholder
    have hlength := length_enter_le henter
    rw [List.length_append] at hlength
    have hcall := enter_step henter l
    rw [Code.exec_append, hpast] at hcall
    exact ⟨by omega, l, _, hb, Mutex.run_unlock hholder, rfl, hcall⟩

/-- The loop thread is in the middle of pushing the first child of a task while another
thread calls `finish`. -/
theorem accesses_unfold_followUp :
    ∃ s, (machine fun _ => EventLoop.followUp).Reachable s ∧ s.holder.isSome ∧
      s.rest.stop_ = true ∧ s.rest.log.length = 1 ∧
      (s.rest.log ++ (pending (s.rest.state s.memory)).preorder).Perm
        EventLoop.followUp.preorder := by
  have hs : (machine fun _ => EventLoop.followUp).Reachable _ :=
    ⟨[.lock (.start EventLoop.followUp), .access, .other .readStop, .access, .access, .access,
      .unlock, .lock .popFront, .access, .access, .access, .access, .access, .access, .access,
      .unlock, .other .execute, .lock .startNext, .access, .other .finish], rfl⟩
  exact ⟨_, hs, rfl, rfl, rfl, (accesses_unfold hs).2.1⟩

end Accesses
end DocaStdexec
