import DocaStdexec.ProgressEngine.RunLoop

/-!
# Running and shutting down the loop

`doca_pe_context` runs `doca_pe_run_loop::run` on its own thread and calls
`finish` in its destructor.  `run` reads `stop_` only at the top of its outer
loop:

    while (!stop_) { run_some(); while (pe.progress()) {} }

The machine below adds the program counter of that loop and the stop flag to
the queue machine of `RunLoop`, by which it is simulated, so every fact about
the queue carries over.  The main result says exactly which work a shutdown
loses: the tasks that are queued when `finish` is called while the loop thread
is not inside `run_some`.
-/

namespace DocaStdexec
namespace Shutdown

open Lib
open RunLoop (Loop)

/-- Where the loop thread stands in `run`. -/
inductive Pc
  /-- About to read `stop_`. -/
  | check
  /-- Inside `run_some`, before the `pop_front_` that finds the queue empty. -/
  | runSome
  /-- In `while (pe.progress())`. -/
  | progress
  | returned
  deriving DecidableEq

structure State (τ : Type*) where
  base : RunLoop.State τ Unit
  stop_ : Bool
  pc : Pc

inductive Event (τ : Type*)
  /-- A producer's `start`, or another use of task storage. -/
  | start (t : τ) (locked : Bool)
  | store (t : τ) (w : RunLoop.Ptr τ)
  /-- The loop thread reads `stop_`. -/
  | readStop
  | popFront
  | execute (stopRequested threw : Bool)
  /-- One `pe.progress()` and the number it returned. -/
  | progress (n : UInt8)
  | finish

section System

variable {τ : Type*} [DecidableEq τ]

def State.init : State τ := ⟨RunLoop.State.init, false, .check⟩

/-- `run`, `run_some` and `finish`, one atomic access at a time. -/
def step (s : State τ) : Event τ → Option (State τ)
  | .start t locked =>
      (RunLoop.step s.base (.start t locked)).map fun base => { s with base := base }
  | .store t w =>
      (RunLoop.step s.base (.store t w)).map fun base => { s with base := base }
  | .readStop =>
      match s.pc with
      | .check => some { s with pc := if s.stop_ then .returned else .runSome }
      | _ => none
  | .popFront =>
      match s.pc with
      | .runSome =>
          (RunLoop.step s.base (.popFront ())).map fun base =>
            { s with
              base := base
              pc := if (RunLoop.popFront s.base.loop).1 = .head then .progress else .runSome }
      | _ => none
  | .execute stopRequested threw =>
      match s.pc with
      | .runSome =>
          (RunLoop.step s.base (.execute () stopRequested threw)).map fun base =>
            { s with base := base }
      | _ => none
  | .progress n =>
      match s.pc with
      | .progress => some { s with pc := if n = 0 then .check else .progress }
      | _ => none
  | .finish => some { s with stop_ := true }

variable (τ) in
def machine : Machine (State τ) (Event τ) := ⟨State.init, step⟩

/-- Everything a step can do: one step of the queue machine, or one move of the
program counter, or setting the flag. -/
inductive Effect (s : State τ) : Event τ → State τ → Prop
  | start (t : τ) (locked : Bool) (base : RunLoop.State τ Unit)
      (hbase : RunLoop.Effect s.base (.start t locked) base) :
      Effect s (.start t locked) { s with base := base }
  | store (t : τ) (w : RunLoop.Ptr τ) (base : RunLoop.State τ Unit)
      (hbase : RunLoop.Effect s.base (.store t w) base) :
      Effect s (.store t w) { s with base := base }
  | leave (hpc : s.pc = .check) (hstop : s.stop_ = true) :
      Effect s .readStop { s with pc := .returned }
  | enter (hpc : s.pc = .check) (hstop : s.stop_ = false) :
      Effect s .readStop { s with pc := .runSome }
  | popFront (base : RunLoop.State τ Unit) (hpc : s.pc = .runSome)
      (hbase : RunLoop.Effect s.base (.popFront ()) base) :
      Effect s .popFront
        { s with
          base := base
          pc := if (RunLoop.popFront s.base.loop).1 = .head then .progress else .runSome }
  | execute (stopRequested threw : Bool) (base : RunLoop.State τ Unit) (hpc : s.pc = .runSome)
      (hbase : RunLoop.Effect s.base (.execute () stopRequested threw) base) :
      Effect s (.execute stopRequested threw) { s with base := base }
  | progress (n : UInt8) (hpc : s.pc = .progress) :
      Effect s (.progress n) { s with pc := if n = 0 then .check else .progress }
  | finish : Effect s .finish { s with stop_ := true }

theorem step_effect {s t : State τ} {e : Event τ} (hstep : step s e = some t) : Effect s e t := by
  cases e with
  | start u locked =>
      obtain ⟨base, hbase, rfl⟩ := Option.map_eq_some_iff.mp hstep
      exact .start u locked base (RunLoop.step_effect hbase)
  | store u w =>
      obtain ⟨base, hbase, rfl⟩ := Option.map_eq_some_iff.mp hstep
      exact .store u w base (RunLoop.step_effect hbase)
  | readStop =>
      simp only [step] at hstep
      split at hstep
      · next hpc =>
          obtain rfl := Option.some.inj hstep
          by_cases hstop : s.stop_ = true
          · simpa only [if_pos hstop] using Effect.leave hpc hstop
          · simpa only [if_neg hstop] using Effect.enter hpc (Bool.not_eq_true _ ▸ hstop)
      · simp at hstep
  | popFront =>
      simp only [step] at hstep
      split at hstep
      · next hpc =>
          obtain ⟨base, hbase, rfl⟩ := Option.map_eq_some_iff.mp hstep
          exact .popFront base hpc (RunLoop.step_effect hbase)
      · simp at hstep
  | execute stopRequested threw =>
      simp only [step] at hstep
      split at hstep
      · next hpc =>
          obtain ⟨base, hbase, rfl⟩ := Option.map_eq_some_iff.mp hstep
          exact .execute stopRequested threw base hpc (RunLoop.step_effect hbase)
      · simp at hstep
  | progress n =>
      simp only [step] at hstep
      split at hstep
      · next hpc =>
          obtain rfl := Option.some.inj hstep
          exact .progress n hpc
      · simp at hstep
  | finish =>
      obtain rfl := Option.some.inj hstep
      exact .finish

/-- The queue machine with one loop thread simulates the running loop. -/
theorem refines_runLoop :
    (machine τ).Simulation (RunLoop.machine τ Unit) fun s base => s.base = base where
  init := rfl
  step := by
    rintro s t e _ rfl hstep
    have one {base : RunLoop.State τ Unit} {e : RunLoop.Event τ Unit}
        (h : RunLoop.Effect s.base e base) :
        ∃ es base', (RunLoop.machine τ Unit).run s.base es = some base' ∧ base = base' :=
      ⟨[e], base, by simp [RunLoop.machine, h.step_eq], rfl⟩
    cases step_effect hstep with
    | start u locked base hbase => exact one hbase
    | store u w base hbase => exact one hbase
    | popFront base hpc hbase => exact one hbase
    | execute stopRequested threw base hpc hbase => exact one hbase
    | leave | enter | progress | finish => exact ⟨[], s.base, rfl, rfl⟩

theorem base_reachable {s : State τ} (hs : (machine τ).Reachable s) :
    (RunLoop.machine τ Unit).Reachable s.base := by
  obtain ⟨base, hbase, rfl⟩ := refines_runLoop.reachable hs
  exact hbase

/-- Outside `run_some` the loop thread has no task in hand. -/
theorem task_eq_none {s : State τ} (hs : (machine τ).Reachable s) (hpc : s.pc ≠ .runSome) :
    s.base.task () = none := by
  refine hs.invariant (I := fun s => s.pc ≠ .runSome → s.base.task () = none)
    (fun _ => rfl) ?_ hpc
  rintro s e t hI hstep
  cases step_effect hstep with
  | start u locked base hbase => cases hbase <;> exact hI
  | store u w base hbase => cases hbase; exact hI
  | leave hpc hstop => exact fun _ => hI (by simp [hpc])
  | enter hpc hstop => exact fun h => absurd rfl h
  | popFront base hpc hbase =>
      cases hbase with
      | idle _ loop hfree hpop => exact fun _ => hfree
      | popped _ u loop hfree hpop => simp [hpop]
  | execute stopRequested threw base hpc hbase =>
      cases hbase
      exact fun _ => by simp
  | progress n hpc => exact fun _ => hI (by simp [hpc])
  | finish => exact hI

/-- Outside `run_some` every popped task has been executed. -/
theorem popped_eq_executed {s : State τ} (hs : (machine τ).Reachable s)
    (hpc : s.pc ≠ .runSome) : s.base.popped = s.base.executed := by
  have horder := (RunLoop.inOrder_of_single (fun _ _ => rfl) (base_reachable hs)).2 ()
  simpa [task_eq_none hs hpc] using horder

/-! ## What a shutdown completes -/

/-- The work pushed before `finish` is drained, or will be before `run` leaves
`run_some`. -/
structure Draining (accepted : List τ) (s : State τ) : Prop where
  reachable : (machine τ).Reachable s
  stop_ : s.stop_ = true
  pushed : accepted <+: s.base.pushed
  popped : s.pc = .runSome ∨ accepted <+: s.base.popped

theorem Draining.step {accepted : List τ} {s t : State τ} {e : Event τ}
    (h : Draining accepted s) (hstep : (machine τ).step s e = some t) : Draining accepted t := by
  have hreach := h.reachable.step hstep
  cases step_effect hstep with
  | start u locked base hbase =>
      cases hbase with
      | pushed _ hfresh =>
          exact ⟨hreach, h.stop_, h.pushed.trans (List.prefix_append _ _), h.popped⟩
      | refused _ hfresh => exact ⟨hreach, h.stop_, h.pushed, h.popped⟩
  | store u w base hbase =>
      cases hbase
      exact ⟨hreach, h.stop_, h.pushed, h.popped⟩
  | leave hpc hstop =>
      exact ⟨hreach, h.stop_, h.pushed, .inr (h.popped.resolve_left (by simp [hpc]))⟩
  | enter hpc hstop => simp [h.stop_] at hstop
  | popFront base hpc hbase =>
      cases hbase with
      | idle _ loop hfree hpop =>
          -- the empty pop: everything pushed so far has been popped
          have hempty : s.base.loop.next .head = .head := by
            rw [← RunLoop.popFront_fst, hpop]
          have hall := (RunLoop.next_head_eq_iff (base_reachable h.reachable)).mp hempty
          exact ⟨hreach, h.stop_, h.pushed, .inr (hall ▸ h.pushed)⟩
      | popped _ u loop hfree hpop =>
          exact ⟨hreach, h.stop_, h.pushed, .inl (by simp [hpop])⟩
  | execute stopRequested threw base hpc hbase =>
      cases hbase
      exact ⟨hreach, h.stop_, h.pushed, .inl hpc⟩
  | progress n hpc =>
      exact ⟨hreach, h.stop_, h.pushed, .inr (h.popped.resolve_left (by simp [hpc]))⟩
  | finish => exact ⟨hreach, rfl, h.pushed, h.popped⟩

/-- Once the flag is set outside `run_some`, nothing is executed any more. -/
structure Stopped (executed : List τ) (s : State τ) : Prop where
  stop_ : s.stop_ = true
  pc : s.pc ≠ .runSome
  executed : s.base.executed = executed

theorem Stopped.step {executed : List τ} {s t : State τ} {e : Event τ}
    (h : Stopped executed s) (hstep : (machine τ).step s e = some t) : Stopped executed t := by
  cases step_effect hstep with
  | start u locked base hbase => cases hbase <;> exact ⟨h.stop_, h.pc, h.executed⟩
  | store u w base hbase => cases hbase; exact ⟨h.stop_, h.pc, h.executed⟩
  | leave hpc hstop => exact ⟨h.stop_, by simp, h.executed⟩
  | enter hpc hstop => simp [h.stop_] at hstop
  | popFront base hpc hbase => exact absurd hpc h.pc
  | execute stopRequested threw base hpc hbase => exact absurd hpc h.pc
  | progress n hpc => exact ⟨h.stop_, by dsimp only; split <;> simp, h.executed⟩
  | finish => exact ⟨rfl, h.pc, h.executed⟩

/-- A shutdown completes all accepted work exactly when `finish` finds the loop
thread inside `run_some`, or the queue empty. -/
theorem shutdown_completes_iff {s₁ s₂ s₃ : State τ} (es₁ es₂ : List (Event τ))
    (hbefore : (machine τ).run State.init es₁ = some s₁)
    (hfinish : (machine τ).step s₁ .finish = some s₂)
    (hafter : (machine τ).run s₂ es₂ = some s₃)
    (hreturned : s₃.pc = .returned) :
    (∀ t, s₁.base.pushed.count t ≤ s₃.base.executed.count t) ↔
      (s₁.pc = .runSome ∨ s₁.base.loop.next .head = .head) := by
  have hreach₁ : (machine τ).Reachable s₁ := ⟨es₁, hbefore⟩
  have hreach₃ : (machine τ).Reachable s₃ := (hreach₁.step hfinish).run hafter
  have hempty := RunLoop.next_head_eq_iff (base_reachable hreach₁)
  obtain rfl := Option.some.inj hfinish
  constructor
  · intro hall
    by_contra hlost
    obtain ⟨hpc, hqueued⟩ := not_or.mp hlost
    have hstopped : Stopped s₁.base.executed s₃ :=
      Machine.run_invariant (s := { s₁ with stop_ := true })
        (fun _ _ _ h hstep => h.step hstep) ⟨rfl, hpc, rfl⟩ hafter
    obtain ⟨rest, hsplit⟩ := RunLoop.popped_prefix_pushed (base_reachable hreach₁)
    cases rest with
    | nil => exact hqueued (hempty.mpr (by simpa using hsplit.symm))
    | cons t rest =>
        -- the front of the queue has been pushed once more than executed
        have ht := hall t
        rw [hstopped.executed, ← popped_eq_executed hreach₁ hpc, ← hsplit] at ht
        rw [List.count_append, List.count_cons_self] at ht
        omega
  · intro hgood
    have hdraining : Draining s₁.base.pushed s₃ := by
      refine Machine.run_invariant (s := { s₁ with stop_ := true })
        (fun _ _ _ h hstep => h.step hstep)
        ⟨hreach₁.step hfinish, rfl, List.prefix_rfl, hgood.imp_right fun h => ?_⟩ hafter
      exact hempty.mp h ▸ List.prefix_rfl
    intro t
    have hpopped := hdraining.popped.resolve_left (by simp [hreturned])
    rw [popped_eq_executed hreach₃ (by simp [hreturned])] at hpopped
    exact hpopped.sublist.count_le t

/-- A task that is pushed before `finish`, while the loop thread is between its
last empty pop and its next look at `stop_`, is never executed. -/
theorem shutdown_loses_pushed_task :
    ∃ s₁ s₂ s₃ : State Nat,
      (machine Nat).run State.init [.readStop, .popFront, .start 7 true] = some s₁ ∧
      (machine Nat).step s₁ .finish = some s₂ ∧
      (machine Nat).run s₂ [.progress 0, .readStop] = some s₃ ∧
      s₃.pc = .returned ∧
      ¬ ∀ t, s₁.base.pushed.count t ≤ s₃.base.executed.count t :=
  ⟨_, _, _, rfl, rfl, rfl, rfl, fun hall => absurd (hall 7) (by decide)⟩

/-- The same push is completed when `finish` comes while the thread is still in
`run_some`. -/
theorem shutdown_completes_pushed_task :
    ∃ s₁ s₂ s₃ : State Nat,
      (machine Nat).run State.init [.readStop, .start 7 true] = some s₁ ∧
      (machine Nat).step s₁ .finish = some s₂ ∧
      (machine Nat).run s₂
        [.popFront, .execute false false, .popFront, .progress 0, .readStop] = some s₃ ∧
      ∀ t, s₁.base.pushed.count t ≤ s₃.base.executed.count t :=
  ⟨_, _, _, rfl, rfl, rfl, (shutdown_completes_iff [.readStop, .start 7 true]
    [.popFront, .execute false false, .popFront, .progress 0, .readStop]
    rfl rfl rfl rfl).mpr (.inl rfl)⟩

end System
end Shutdown
end DocaStdexec
