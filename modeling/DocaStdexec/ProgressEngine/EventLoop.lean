import DocaStdexec.Lib.Unfolding
import DocaStdexec.ProgressEngine.Reentrancy
import DocaStdexec.ProgressEngine.Shutdown
import Mathlib.Algebra.GroupWithZero.Nat

/-!
# The loop as an event loop

`run` alternates between the task queue and the progress engine.  A task may start more
tasks and may have DOCA carry out operations; the completion callback of an operation
runs inside `pe.progress()`, on the same thread, and may do the same.  What is started
is a forest whose nodes are tasks and operations.  A start may also fail: then `push_back_`
throws, and `start` sends the receiver the error before it returns.

The loop executes such a forest in an order that respects it, whatever other threads
start meanwhile, in whichever order DOCA completes the operations and whatever
`pe.progress()` returns: `unfolds_of_reachable`.  It also gets everything done: but for the
polls that find nothing although something is outstanding and those that return a number
other than 0, a run of the loop cannot be longer than a fixed multiple of what is still to
be executed (`drains`).
-/

namespace DocaStdexec
namespace EventLoop

open Lib
open RunLoop (Loop Ptr Represents pushBack popFront)
open Reentrancy (Job)
open Shutdown (Pc)

inductive Item (τ ω : Type*)
  /-- A task of the queue. -/
  | task (j : Job τ)
  /-- A task whose `push_back_` throws; `start` completes it with `set_error`. -/
  | refused (t : τ)
  /-- An operation that DOCA carries out. -/
  | operation (op : ω)

/-- Something to execute, and what its execution starts, in order. -/
abbrev Work (τ ω : Type*) := RoseTree (Item τ ω)

/-- `work` is what has been constructed at an address.  The loop thread has `hand` in
hand, or still has to start `running`; DOCA has `outstanding`. -/
structure State (τ ω : Type*) where
  loop : Loop τ
  work : τ → Work τ ω
  /-- The tasks that have been pushed and not popped, oldest first. -/
  queue : List τ
  hand : Option τ
  running : Forest (Item τ ω)
  outstanding : Forest (Item τ ω)
  pc : Pc
  stop_ : Bool
  /-- What has been executed. -/
  log : List (Item τ ω)
  /-- What other threads have started. -/
  started : Forest (Item τ ω)

inductive Event (τ ω : Type*)
  /-- Another thread starts something, or a callback of DOCA that belongs to none of the
  outstanding operations does. -/
  | start (o : Work τ ω)
  | finish
  /-- The loop thread reads `stop_`. -/
  | readStop
  | popFront
  | execute
  /-- The task or the callback that runs starts its next child. -/
  | startNext
  /-- `pe.progress()` runs the callback of the outstanding operation at `i`. -/
  | callback (i : Nat)
  /-- `pe.progress()` returns `n`, whether or not it has run a callback. -/
  | progress (n : UInt8)

section Model

variable {τ ω : Type*} [DecidableEq τ]

def State.init (work : τ → Work τ ω) : State τ ω :=
  ⟨Loop.init, work, [], none, [], [], .check, false, [], []⟩

/-- `start` of a `schedule` operation, or the submission of a DOCA task. -/
def start (s : State τ ω) (o : Work τ ω) : State τ ω :=
  match o.root with
  | .task j =>
      { s with
        loop := pushBack s.loop j.task
        work := Function.update s.work j.task o
        queue := s.queue ++ [j.task] }
  | .refused _ => { s with log := s.log ++ [o.root], running := o.children ++ s.running }
  | .operation _ => { s with outstanding := s.outstanding ++ [o] }

/-- The storage of a task. -/
def Item.address : Item τ ω → Option τ
  | .task j => some j.task
  | .refused t => some t
  | .operation _ => none

/-- The storage of a task is not used again before the task has been executed. -/
def Free (s : State τ ω) (o : Work τ ω) : Prop :=
  ∀ t ∈ o.root.address, t ∉ s.queue ∧ s.hand ≠ some t

instance (s : State τ ω) (o : Work τ ω) : Decidable (Free s o) :=
  inferInstanceAs (Decidable (∀ t ∈ o.root.address, _))

/-- What starts before the `start` of `o` returns, on the same thread. -/
def atOnce (o : Work τ ω) : Forest (Item τ ω) :=
  match o.root with
  | .refused _ => o.children
  | _ => []

/-- `run` and `run_some`, one access at a time. -/
def step (s : State τ ω) : Event τ ω → Option (State τ ω)
  | .start o =>
      -- what a refused receiver starts on another thread are starts of that thread
      if Free s o ∧ (atOnce o).isEmpty then
        some (start { s with started := s.started ++ [o] } o)
      else none
  | .finish => some { s with stop_ := true }
  | .readStop =>
      match s.pc with
      | .check => some { s with pc := if s.stop_ then .returned else .runSome }
      | _ => none
  | .popFront =>
      match s.pc, s.hand, s.running with
      | .runSome, none, [] =>
          match popFront s.loop with
          | (.head, loop) => some { s with loop := loop, pc := .progress }
          | (.task t, loop) =>
              some { s with loop := loop, queue := s.queue.tail, hand := some t }
      | _, _, _ => none
  | .execute =>
      match s.hand with
      | some t =>
          some { s with
            hand := none
            log := s.log ++ [(s.work t).root]
            running := (s.work t).children }
      | none => none
  | .startNext =>
      match s.running with
      | o :: rest => if Free s o then some (start { s with running := rest } o) else none
      | [] => none
  | .callback i =>
      match s.pc, s.running, s.outstanding[i]? with
      | .progress, [], some o =>
          some { s with
            outstanding := s.outstanding.eraseIdx i
            log := s.log ++ [o.root]
            running := o.children }
      | _, _, _ => none
  | .progress n =>
      match s.pc, s.running with
      | .progress, [] => some { s with pc := if n = 0 then .check else .progress }
      | _, _ => none

def machine (work : τ → Work τ ω) : Machine (State τ ω) (Event τ ω) := ⟨State.init work, step⟩

/-- What is still to be executed. -/
def pending (s : State τ ω) : Forest (Item τ ω) :=
  s.queue.map s.work ++ ((s.hand.map s.work).toList ++ (s.running ++ s.outstanding))

/-- Everything a step can do. -/
inductive Effect (s : State τ ω) : Event τ ω → State τ ω → Prop
  | start (o : Work τ ω) (hfree : Free s o) (hatOnce : atOnce o = []) :
      Effect s (.start o) (start { s with started := s.started ++ [o] } o)
  | finish : Effect s .finish { s with stop_ := true }
  | readStop (hpc : s.pc = .check) :
      Effect s .readStop { s with pc := if s.stop_ then .returned else .runSome }
  | idle (loop : Loop τ) (hpc : s.pc = .runSome) (hhand : s.hand = none)
      (hrunning : s.running = []) (hpop : popFront s.loop = (.head, loop)) :
      Effect s .popFront { s with loop := loop, pc := .progress }
  | popped (t : τ) (loop : Loop τ) (hpc : s.pc = .runSome) (hhand : s.hand = none)
      (hrunning : s.running = []) (hpop : popFront s.loop = (.task t, loop)) :
      Effect s .popFront { s with loop := loop, queue := s.queue.tail, hand := some t }
  | execute (t : τ) (hhand : s.hand = some t) :
      Effect s .execute
        { s with
          hand := none
          log := s.log ++ [(s.work t).root]
          running := (s.work t).children }
  | startNext (o : Work τ ω) (rest : Forest (Item τ ω)) (hrunning : s.running = o :: rest)
      (hfree : Free s o) : Effect s .startNext (EventLoop.start { s with running := rest } o)
  | completed (i : Nat) (o : Work τ ω) (hpc : s.pc = .progress) (hrunning : s.running = [])
      (ho : s.outstanding[i]? = some o) :
      Effect s (.callback i)
        { s with
          outstanding := s.outstanding.eraseIdx i
          log := s.log ++ [o.root]
          running := o.children }
  | polled (n : UInt8) (hpc : s.pc = .progress) (hrunning : s.running = []) :
      Effect s (.progress n) { s with pc := if n = 0 then .check else .progress }

theorem step_effect {s t : State τ ω} {ev : Event τ ω} (hstep : step s ev = some t) :
    Effect s ev t := by
  cases ev with
  | start o =>
      obtain ⟨⟨hfree, hatOnce⟩, hsome⟩ := Option.ite_none_right_eq_some.mp hstep
      exact Option.some.inj hsome ▸ .start o hfree (List.isEmpty_iff.mp hatOnce)
  | finish => exact Option.some.inj hstep ▸ .finish
  | readStop =>
      simp only [step] at hstep
      split at hstep
      · next hpc => exact Option.some.inj hstep ▸ .readStop hpc
      · simp at hstep
  | popFront =>
      simp only [step] at hstep
      split at hstep
      · next hpc hhand hrunning =>
          split at hstep
          · next hpop => exact Option.some.inj hstep ▸ .idle _ hpc hhand hrunning hpop
          · next hpop => exact Option.some.inj hstep ▸ .popped _ _ hpc hhand hrunning hpop
      · simp at hstep
  | execute =>
      simp only [step] at hstep
      split at hstep
      · next hhand => exact Option.some.inj hstep ▸ .execute _ hhand
      · simp at hstep
  | startNext =>
      simp only [step] at hstep
      split at hstep
      · next hrunning =>
          obtain ⟨hfree, hsome⟩ := Option.ite_none_right_eq_some.mp hstep
          exact Option.some.inj hsome ▸ .startNext _ _ hrunning hfree
      · simp at hstep
  | callback i =>
      simp only [step] at hstep
      split at hstep
      · next hpc hrunning ho => exact Option.some.inj hstep ▸ .completed _ _ hpc hrunning ho
      · simp at hstep
  | progress n =>
      simp only [step] at hstep
      split at hstep
      · next hpc hrunning => exact Option.some.inj hstep ▸ .polled n hpc hrunning
      · simp at hstep

theorem Effect.step_eq {s t : State τ ω} {ev : Event τ ω} (h : Effect s ev t) :
    step s ev = some t := by
  cases h with
  | start o hfree hatOnce => exact if_pos ⟨hfree, List.isEmpty_iff.mpr hatOnce⟩
  | finish => rfl
  | readStop hpc => simp only [step, hpc]
  | idle loop hpc hhand hrunning hpop => simp only [step, hpc, hhand, hrunning, hpop]
  | popped u loop hpc hhand hrunning hpop => simp only [step, hpc, hhand, hrunning, hpop]
  | execute u hhand => simp only [step, hhand]
  | startNext o rest hrunning hfree => simp only [step, hrunning, if_pos hfree]
  | completed i o hpc hrunning ho => simp only [step, hpc, hrunning, ho]
  | polled n hpc hrunning => simp only [step, hpc, hrunning]

/-- The list of the loop is the queue, a task in hand is not queued and starts nothing
yet, and what has been executed respects the forest. -/
structure Inv (s : State τ ω) : Prop where
  represents : Represents s.loop s.queue
  hand : ∀ t, s.hand = some t → s.pc = .runSome ∧ t ∉ s.queue ∧ s.running = []
  unfolds : Forest.Unfolds s.started s.log (pending s)

variable {s t : State τ ω}

/-- The list of the loop after a start. -/
theorem represents_start (h : Represents s.loop s.queue) (o : Work τ ω) (hfree : Free s o) :
    Represents (start s o).loop (start s o).queue := by
  unfold start
  split
  · next j hroot => exact RunLoop.pushBack_represents h (hfree j.task (by rw [hroot]; rfl)).1
  · exact h
  · exact h

theorem start_frame (s : State τ ω) (o : Work τ ω) :
    (start s o).hand = s.hand ∧ (start s o).pc = s.pc ∧ (start s o).stop_ = s.stop_ ∧
      (start s o).started = s.started := by
  unfold start
  split <;> exact ⟨rfl, rfl, rfl, rfl⟩

theorem start_running (s : State τ ω) (o : Work τ ω) :
    (start s o).running = atOnce o ++ s.running := by
  unfold start atOnce
  split <;> simp_all

/-- A task in hand is not the one that is started. -/
theorem notMem_queue_start {u : τ} {o : Work τ ω} (hhand : s.hand = some u) (hu : u ∉ s.queue)
    (hfree : Free s o) : u ∉ (start s o).queue := by
  unfold start
  split
  · next j hroot =>
      intro hmem
      rcases List.mem_append.mp hmem with hold | hnew
      · exact hu hold
      · refine (hfree j.task (by rw [hroot]; rfl)).2 (hhand.trans (congrArg some ?_))
        exact List.mem_singleton.mp hnew
  · exact hu
  · exact hu

/-- Something that is started is pending, or has been executed already. -/
theorem unfolds_start {F : Forest (Item τ ω)} {o : Work τ ω} (hfree : Free s o)
    (h : Forest.Unfolds F s.log (pending s ++ [o])) :
    Forest.Unfolds F (start s o).log (pending (start s o)) := by
  unfold start
  split
  · next j hroot =>
      obtain ⟨hqueue, hhand⟩ := hfree j.task (by rw [hroot]; rfl)
      have hold : s.queue.map (Function.update s.work j.task o) = s.queue.map s.work := by
        refine List.map_congr_left fun t ht => Function.update_of_ne ?_ _ _
        rintro rfl
        exact hqueue ht
      have hinhand : s.hand.map (Function.update s.work j.task o) = s.hand.map s.work := by
        cases hs : s.hand with
        | none => rfl
        | some t =>
            have hne : t ≠ j.task := fun h => hhand (by rw [hs, h])
            simp [Function.update_of_ne hne]
      refine h.perm ?_
      simp only [pending, List.map_append, List.map_singleton, Function.update_self, hold,
        hinhand, List.append_assoc]
      refine List.Perm.append_left _ ?_
      have hmove : ((s.hand.map s.work).toList ++ (s.running ++ s.outstanding) ++ [o]).Perm
          ([o] ++ ((s.hand.map s.work).toList ++ (s.running ++ s.outstanding))) :=
        List.perm_append_comm
      simpa only [List.append_assoc] using hmove
  · refine h.snoc (K := pending s) (List.perm_append_singleton o _) ?_
    simp only [pending, List.append_assoc]
    refine (List.Perm.append_left _ ?_).trans (List.perm_append_comm_assoc _ _ _)
    exact List.perm_append_comm_assoc _ _ _
  · refine h.perm ?_
    simp only [pending, List.append_assoc]
    exact List.Perm.refl _

/-- A start keeps the invariant when the forest accounts for what is started. -/
theorem Inv.start {o : Work τ ω} (hrep : Represents s.loop s.queue)
    (hhand : ∀ u, s.hand = some u → s.pc = .runSome ∧ u ∉ s.queue ∧ s.running = [])
    (hunfolds : Forest.Unfolds s.started s.log (pending s ++ [o])) (hfree : Free s o)
    (hatOnce : s.hand = none ∨ atOnce o = []) : Inv (start s o) := by
  obtain ⟨hsame, hpc, -, hstarted⟩ := start_frame s o
  refine ⟨represents_start hrep o hfree, fun u hu => ?_, hstarted ▸ unfolds_start hfree hunfolds⟩
  rw [hsame] at hu
  obtain ⟨hat, hmem, hnone⟩ := hhand u hu
  have hempty : atOnce o = [] := hatOnce.resolve_left (by simp [hu])
  refine ⟨hpc.trans hat, notMem_queue_start hu hmem hfree, ?_⟩
  rw [start_running, hempty, hnone]
  rfl

omit [DecidableEq τ] in
theorem Inv.hand_eq_none (h : Inv s) (hpc : s.pc ≠ .runSome) : s.hand = none := by
  cases hhand : s.hand with
  | none => rfl
  | some u => exact absurd (h.hand u hhand).1 hpc

theorem Inv.queue_eq_nil (h : Inv s) {loop : Loop τ} (hpop : popFront s.loop = (.head, loop)) :
    s.queue = [] ∧ loop = s.loop := by
  cases hqueue : s.queue with
  | nil =>
      rw [RunLoop.popFront_of_nil (hqueue ▸ h.represents)] at hpop
      exact ⟨rfl, (Prod.mk.inj hpop).2.symm⟩
  | cons u Q =>
      have hfst := (RunLoop.popFront_of_cons (hqueue ▸ h.represents)).1
      simp [hpop] at hfst

theorem Inv.queue_eq_cons (h : Inv s) {u : τ} {loop : Loop τ}
    (hpop : popFront s.loop = (.task u, loop)) :
    ∃ Q, s.queue = u :: Q ∧ u ∉ Q ∧ Represents loop Q := by
  cases hqueue : s.queue with
  | nil => simp [RunLoop.popFront_of_nil (hqueue ▸ h.represents)] at hpop
  | cons v Q =>
      have hrep := hqueue ▸ h.represents
      obtain ⟨hfst, hrest⟩ := RunLoop.popFront_of_cons hrep
      rw [hpop] at hfst hrest
      obtain rfl : u = v := Ptr.task.inj hfst
      exact ⟨Q, rfl, (List.nodup_cons.mp hrep.nodup).1, hrest⟩

theorem Inv.step (h : Inv s) {ev : Event τ ω} (hstep : EventLoop.step s ev = some t) : Inv t := by
  cases step_effect hstep with
  | start o hfree hatOnce =>
      exact Inv.start (s := { s with started := s.started ++ [o] }) h.represents h.hand
        (h.unfolds.add o) hfree (.inr hatOnce)
  | finish => exact ⟨h.represents, h.hand, h.unfolds⟩
  | readStop hpc =>
      refine ⟨h.represents, fun u hu => ?_, h.unfolds⟩
      exact absurd (h.hand u hu).1 (by simp [hpc])
  | idle loop hpc hhand hrunning hpop =>
      obtain ⟨hqueue, rfl⟩ := h.queue_eq_nil hpop
      exact ⟨h.represents, fun u hu => by simp [hhand] at hu, h.unfolds⟩
  | popped u loop hpc hhand hrunning hpop =>
      obtain ⟨Q, hqueue, hmem, hrest⟩ := h.queue_eq_cons hpop
      refine ⟨by rwa [hqueue], fun w hw => ?_, h.unfolds.perm ?_⟩
      · obtain rfl := Option.some.inj hw
        exact ⟨hpc, by rwa [hqueue], hrunning⟩
      · simp only [pending, hqueue, hhand, hrunning, List.tail_cons]
        exact List.perm_middle.symm
  | execute u hhand =>
      obtain ⟨hpc, hmem, hrunning⟩ := h.hand u hhand
      refine ⟨h.represents, fun w hw => by simp at hw, h.unfolds.snoc (K := ?_) ?_ ?_⟩
      · exact s.queue.map s.work ++ s.outstanding
      · simp only [pending, hhand, hrunning]
        exact List.perm_middle
      · simp only [pending, Option.map_none, Option.toList_none, List.nil_append]
        exact List.perm_append_comm_assoc _ _ _
  | startNext o rest hrunning hfree =>
      have hhand : s.hand = none := by
        cases hhand : s.hand with
        | none => rfl
        | some u =>
            have hnone := (h.hand u hhand).2.2
            simp [hrunning] at hnone
      refine Inv.start (s := { s with running := rest }) h.represents (fun u hu => ?_) ?_ hfree
        (.inl hhand)
      · simp [hhand] at hu
      · refine h.unfolds.perm ?_
        simp only [pending, hrunning, List.append_assoc]
        refine List.Perm.append_left _ (List.Perm.append_left _ ?_)
        rw [← List.append_assoc]
        exact (List.perm_append_singleton o _).symm
  | polled n hpc hrunning =>
      refine ⟨h.represents, fun u hu => ?_, h.unfolds⟩
      exact absurd (h.hand u hu).1 (by simp [hpc])
  | completed i o hpc hrunning ho =>
      have hnone : s.hand = none := h.hand_eq_none (by simp [hpc])
      obtain ⟨hi, hget⟩ := List.getElem?_eq_some_iff.mp ho
      have hout : s.outstanding.Perm (o :: s.outstanding.eraseIdx i) :=
        hget ▸ (List.getElem_cons_eraseIdx_perm hi).symm
      refine ⟨h.represents, fun u hu => by simp [hnone] at hu, h.unfolds.snoc (K := ?_) ?_ ?_⟩
      · exact s.queue.map s.work ++ s.outstanding.eraseIdx i
      · simp only [pending, hnone, hrunning]
        exact (hout.append_left _).trans List.perm_middle
      · simp only [pending, hnone, Option.map_none, Option.toList_none, List.nil_append]
        exact List.perm_append_comm_assoc _ _ _

theorem inv_of_reachable {work : τ → Work τ ω} (hs : (machine work).Reachable s) : Inv s := by
  refine hs.invariant ⟨RunLoop.init_represents, by simp [machine, State.init], ?_⟩
    fun s ev t h hstep => h.step hstep
  exact .nil (List.Perm.refl _)

/-- What the loop has executed respects the forest of everything that has been started: a
child comes after its parent, and each task and each operation is executed once or is still
pending, never both.  A task whose `push_back_` throws counts as executed by `start`.  When
`run` returns, what is pending is lost. -/
theorem unfolds_of_reachable {work : τ → Work τ ω} (hs : (machine work).Reachable s) :
    Forest.Unfolds s.started s.log (pending s) ∧
      (s.log ++ (pending s).preorder).Perm s.started.preorder ∧
      Represents s.loop s.queue := by
  have h := inv_of_reachable hs
  exact ⟨h.unfolds, h.unfolds.preorder_perm, h.represents⟩

/-- A task starts another and an operation, whose callback starts a third task. -/
def followUp : Work Nat Nat :=
  .node (.task ⟨1, false, false⟩)
    [.node (.task ⟨2, false, false⟩) [],
     .node (.operation 7) [.node (.task ⟨3, false, false⟩) []]]

/-- A task starts one that is refused, and the receiver of this one starts another. -/
example :
    ((machine fun _ => followUp).run (State.init fun _ => followUp)
      [.start (.node (.task ⟨1, false, false⟩)
        [.node (.refused 2) [.node (.task ⟨3, false, false⟩) []]]),
        .readStop, .popFront, .execute, .startNext, .startNext]).map
      (fun s => (s.log.length, s.queue)) = some (2, [3]) := rfl

/-- The operation completes while the second task has been executed, and `finish` comes
before the third. -/
theorem unfolds_of_reachable_followUp :
    ∃ s, (machine fun _ => followUp).Reachable s ∧ s.pc = .returned ∧
      (s.log ++ (pending s).preorder).Perm followUp.preorder ∧ (pending s).length = 1 := by
  have hs : (machine fun _ => followUp).Reachable _ :=
    ⟨[.start followUp, .readStop, .popFront, .execute, .startNext, .startNext, .popFront,
      .execute, .popFront, .progress 1, .callback 0, .startNext, .finish, .progress 0,
      .readStop], rfl⟩
  exact ⟨_, hs, rfl, (unfolds_of_reachable hs).2.1, rfl⟩

/-! ## The loop without the callbacks -/

/-- What the execution of a task sends to its receiver; an operation is not the loop's. -/
def Item.completion : Item τ ω → Option (τ × RunLoop.Completion)
  | .task j => some j.completion
  | .refused _ | .operation _ => none

/-- What `start` sends to the receiver when `push_back_` throws. -/
def Item.refusal : Item τ ω → Option (τ × RunLoop.Completion)
  | .refused t => some (t, .setError)
  | .task _ | .operation _ => none

/-- What has been constructed at the address of a queued task, or of the one in hand, is
that task, and only operations are outstanding. -/
structure Placed (s : State τ ω) : Prop where
  task : ∀ u, u ∈ s.queue ∨ s.hand = some u → ∃ j, (s.work u).root = .task j ∧ j.task = u
  operation : ∀ o ∈ s.outstanding, ∃ op, o.root = .operation op

theorem Placed.start (h : Placed s) (o : Work τ ω) : Placed (start s o) := by
  unfold EventLoop.start
  split
  · next j hroot =>
      refine ⟨fun u hu => ?_, h.operation⟩
      show ∃ k, (Function.update s.work j.task o u).root = .task k ∧ k.task = u
      by_cases hnew : u = j.task
      · rw [hnew, Function.update_self]
        exact ⟨j, hroot, rfl⟩
      · rw [Function.update_of_ne hnew]
        refine h.task u (hu.imp_left fun hmem => ?_)
        exact (List.mem_append.mp hmem).resolve_right fun h => hnew (List.mem_singleton.mp h)
  · exact ⟨h.task, h.operation⟩
  · next op hroot =>
      refine ⟨h.task, fun p hp => ?_⟩
      rcases List.mem_append.mp hp with hold | hnew
      · exact h.operation p hold
      · exact ⟨op, List.mem_singleton.mp hnew ▸ hroot⟩

theorem Placed.step (h : Placed s) (hinv : Inv s) {ev : Event τ ω}
    (hstep : EventLoop.step s ev = some t) : Placed t := by
  cases step_effect hstep with
  | start o hfree hatOnce =>
      exact Placed.start (s := { s with started := s.started ++ [o] }) ⟨h.task, h.operation⟩ o
  | finish => exact ⟨h.task, h.operation⟩
  | readStop hpc => exact ⟨h.task, h.operation⟩
  | idle loop hpc hhand hrunning hpop => exact ⟨h.task, h.operation⟩
  | popped u loop hpc hhand hrunning hpop =>
      refine ⟨fun v hv => h.task v (.inl ?_), h.operation⟩
      obtain ⟨Q, hqueue, hmem, hrest⟩ := hinv.queue_eq_cons hpop
      rcases hv with hold | hnew
      · exact List.mem_of_mem_tail hold
      · rw [hqueue, Option.some.inj hnew]
        exact List.mem_cons_self
  | execute u hhand => exact ⟨fun v hv => h.task v (.inl (by simpa using hv)), h.operation⟩
  | startNext o rest hrunning hfree =>
      exact Placed.start (s := { s with running := rest }) ⟨h.task, h.operation⟩ o
  | polled n hpc hrunning => exact ⟨h.task, h.operation⟩
  | completed i o hpc hrunning ho =>
      exact ⟨h.task, fun p hp => h.operation p (List.mem_of_mem_eraseIdx hp)⟩

/-- Where the loop of `Shutdown` stands while this one is in `s`.  The callbacks that
`pe.progress()` runs are to it just other threads. -/
structure Abstracts (s : State τ ω) (b : Shutdown.State τ) : Prop where
  loop : b.base.loop = s.loop
  hand : b.base.task () = s.hand
  pc : b.pc = s.pc
  stop_ : b.stop_ = s.stop_
  pushed : b.base.pushed = b.base.popped ++ s.queue
  completed : b.base.completed = s.log.filterMap Item.completion
  refused : b.base.refused = s.log.filterMap Item.refusal

variable {b : Shutdown.State τ}

theorem Abstracts.queued_iff (h : Abstracts s b) (u : τ) : b.base.Queued u ↔ u ∈ s.queue := by
  unfold RunLoop.State.Queued
  rw [h.pushed, List.count_append, ← List.count_pos_iff]
  omega

/-- One step of the loop of `Shutdown`. -/
theorem exists_run_of_step {R : Shutdown.State τ → Prop} {c : Shutdown.State τ}
    (ev : Shutdown.Event τ) (hstep : Shutdown.step b ev = some c) (hc : R c) :
    ∃ es c, (Shutdown.machine τ).run b es = some c ∧ R c :=
  ⟨[ev], c, ((Shutdown.machine τ).run_singleton).trans hstep, hc⟩

/-- A start is the start of another thread, or none. -/
theorem Abstracts.start (h : Abstracts s b) {o : Work τ ω} (hfree : Free s o) :
    ∃ es c, (Shutdown.machine τ).run b es = some c ∧ Abstracts (EventLoop.start s o) c := by
  unfold EventLoop.start
  split
  · next j hroot =>
      have hqueue : j.task ∉ s.queue := (hfree j.task (by rw [hroot]; rfl)).1
      have hfresh : ¬b.base.Queued j.task := mt (h.queued_iff _).mp hqueue
      have hbase := (RunLoop.Effect.pushed (θ := Unit) j.task hfresh).step_eq
      refine exists_run_of_step (.start j.task true)
        (Option.map_eq_some_iff.mpr ⟨_, hbase, rfl⟩)
        ⟨?_, h.hand, h.pc, h.stop_, ?_, h.completed, h.refused⟩
      · exact congrArg (pushBack · j.task) h.loop
      · show b.base.pushed ++ [j.task] = b.base.popped ++ (s.queue ++ [j.task])
        rw [h.pushed, List.append_assoc]
  · next t hroot =>
      have hqueue : t ∉ s.queue := (hfree t (by rw [hroot]; rfl)).1
      have hfresh : ¬b.base.Queued t := mt (h.queued_iff _).mp hqueue
      have hbase := (RunLoop.Effect.refused (θ := Unit) t hfresh).step_eq
      refine exists_run_of_step (.start t false)
        (Option.map_eq_some_iff.mpr ⟨_, hbase, rfl⟩)
        ⟨h.loop, h.hand, h.pc, h.stop_, h.pushed, ?_, ?_⟩
      · show b.base.completed = (s.log ++ [o.root]).filterMap Item.completion
        rw [hroot, h.completed, List.filterMap_append]
        exact (List.append_nil _).symm
      · show b.base.refused ++ [(t, .setError)] = (s.log ++ [o.root]).filterMap Item.refusal
        rw [hroot, h.refused, List.filterMap_append]
        rfl
  · exact ⟨[], b, rfl, h.loop, h.hand, h.pc, h.stop_, h.pushed, h.completed, h.refused⟩

/-- The loop with its callbacks is one of the loops of `Shutdown`: it pops, executes,
completes and refuses the same tasks in the same order, so what a shutdown completes is as
shown there. -/
theorem refines_shutdown (work : τ → Work τ ω) :
    (machine work).Simulation (Shutdown.machine τ)
      fun s b => Inv s ∧ Placed s ∧ Abstracts s b where
  init := ⟨inv_of_reachable (machine work).reachable_init,
    ⟨by simp [machine, State.init], by simp [machine, State.init]⟩, rfl, rfl, rfl, rfl, rfl, rfl,
    rfl⟩
  step := by
    rintro s t ev b ⟨hinv, hplaced, h⟩ hstep
    suffices hsim : ∃ es c, (Shutdown.machine τ).run b es = some c ∧ Abstracts t c by
      obtain ⟨es, c, hrun, hc⟩ := hsim
      exact ⟨es, c, hrun, hinv.step hstep, hplaced.step hinv hstep, hc⟩
    cases step_effect hstep with
    | start o hfree hatOnce =>
        have hsame : Abstracts { s with started := s.started ++ [o] } b :=
          ⟨h.loop, h.hand, h.pc, h.stop_, h.pushed, h.completed, h.refused⟩
        exact hsame.start hfree
    | finish =>
        exact exists_run_of_step .finish rfl
          ⟨h.loop, h.hand, h.pc, rfl, h.pushed, h.completed, h.refused⟩
    | readStop hpc =>
        have hmove : Shutdown.step b .readStop = some { b with
            pc := if b.stop_ then .returned else .runSome } := by
          simp only [Shutdown.step, h.pc.trans hpc]
        refine exists_run_of_step _ hmove
          ⟨h.loop, h.hand, ?_, h.stop_, h.pushed, h.completed, h.refused⟩
        show (if b.stop_ then _ else _) = if s.stop_ then _ else _
        rw [h.stop_]
    | idle loop hpc hhand hrunning hpop =>
        rw [← h.loop] at hpop
        have hbase := (RunLoop.Effect.idle () loop (h.hand.trans hhand) hpop).step_eq
        have hmove : Shutdown.step b .popFront = some { b with
            base := { b.base with loop := loop }, pc := .progress } := by
          simp only [Shutdown.step, h.pc.trans hpc, hbase, Option.map_some, hpop, if_true]
        exact exists_run_of_step _ hmove
          ⟨rfl, h.hand, rfl, h.stop_, h.pushed, h.completed, h.refused⟩
    | popped u loop hpc hhand hrunning hpop =>
        obtain ⟨Q, hqueue, hmem, hrest⟩ := hinv.queue_eq_cons hpop
        rw [← h.loop] at hpop
        have hbase := (RunLoop.Effect.popped () u loop (h.hand.trans hhand) hpop).step_eq
        have hmove : Shutdown.step b .popFront = some { b with
            base := { b.base with
              loop := loop
              task := Function.update b.base.task () (some u)
              popped := b.base.popped ++ [u] }
            pc := .runSome } := by
          simp only [Shutdown.step, h.pc.trans hpc, hbase, Option.map_some, hpop]
          rfl
        refine exists_run_of_step _ hmove
          ⟨rfl, Function.update_self () (some u) b.base.task, hpc.symm, h.stop_, ?_, h.completed,
            h.refused⟩
        show b.base.pushed = b.base.popped ++ [u] ++ s.queue.tail
        rw [h.pushed, hqueue, List.append_assoc]
        rfl
    | execute u hhand =>
        obtain ⟨hpc, hmem, hrunning⟩ := hinv.hand u hhand
        obtain ⟨j, hroot, rfl⟩ := hplaced.task u (.inr hhand)
        have hbase := (RunLoop.Effect.executed () j.task j.stopRequested j.threw
          (h.hand.trans hhand)).step_eq
        have hmove : Shutdown.step b (.execute j.stopRequested j.threw) = some { b with
            base := { b.base with
              task := Function.update b.base.task () none
              completed := b.base.completed ++ [j.completion] } } := by
          simp only [Shutdown.step, h.pc.trans hpc, hbase, Option.map_some, Job.completion]
        refine exists_run_of_step _ hmove
          ⟨h.loop, Function.update_self () none b.base.task, h.pc, h.stop_, h.pushed, ?_, ?_⟩
        · show b.base.completed ++ [j.completion] =
            (s.log ++ [(s.work j.task).root]).filterMap Item.completion
          rw [hroot, h.completed, List.filterMap_append]
          rfl
        · show b.base.refused = (s.log ++ [(s.work j.task).root]).filterMap Item.refusal
          rw [hroot, h.refused, List.filterMap_append]
          exact (List.append_nil _).symm
    | startNext o rest hrunning hfree =>
        have hsame : Abstracts { s with running := rest } b :=
          ⟨h.loop, h.hand, h.pc, h.stop_, h.pushed, h.completed, h.refused⟩
        exact hsame.start hfree
    | completed i o hpc hrunning ho =>
        obtain ⟨op, hroot⟩ := hplaced.operation o (List.mem_of_getElem? ho)
        refine ⟨[], b, rfl, h.loop, h.hand, h.pc, h.stop_, h.pushed, ?_, ?_⟩
        · show b.base.completed = (s.log ++ [o.root]).filterMap Item.completion
          rw [hroot, h.completed, List.filterMap_append]
          exact (List.append_nil _).symm
        · show b.base.refused = (s.log ++ [o.root]).filterMap Item.refusal
          rw [hroot, h.refused, List.filterMap_append]
          exact (List.append_nil _).symm
    | polled n hpc hrunning =>
        have hmove : Shutdown.step b (.progress n) = some { b with
            pc := if n = 0 then .check else .progress } := by
          simp only [Shutdown.step, h.pc.trans hpc]
        exact exists_run_of_step _ hmove
          ⟨h.loop, h.hand, rfl, h.stop_, h.pushed, h.completed, h.refused⟩

/-! ## How long the loop takes -/

/-- A step of the loop thread, as opposed to one of another thread. -/
def Event.OnLoop : Event τ ω → Prop
  | .start _ => False
  | .finish => False
  | _ => True

instance : (ev : Event τ ω) → Decidable ev.OnLoop
  | .start _ | .finish => .isFalse id
  | .readStop | .popFront | .execute | .startNext | .callback _ | .progress _ => .isTrue trivial

/-- What `pe.progress()` does is up to DOCA. -/
def Event.OfDoca : Event τ ω → Prop
  | .callback _ => True
  | .progress _ => True
  | _ => False

/-- 1 for a `pe.progress()` that returns 0 although something is outstanding. -/
def waiting (s : State τ ω) : Event τ ω → Nat
  | .progress n => if n = 0 ∧ s.outstanding ≠ [] then 1 else 0
  | _ => 0

/-- How often a run waits for DOCA. -/
def waits : State τ ω → List (Event τ ω) → Nat
  | _, [] => 0
  | s, ev :: es => waiting s ev + ((step s ev).map fun t => waits t es).getD 0

/-- 1 for a `pe.progress()` that returns another number. -/
def busy : Event τ ω → Nat
  | .progress n => if n = 0 then 0 else 1
  | _ => 0

/-- How often `pe.progress()` returns another number than 0. -/
def busyPolls (es : List (Event τ ω)) : Nat := (es.map busy).sum

/-- How many nodes are still to be executed. -/
def nodes (s : State τ ω) : Nat := (pending s).preorder.length

/-- What the started part of the pending work has behind it: of the three steps that a
node takes, a queued one has done one, and one in hand or outstanding has one left. -/
def begun (s : State τ ω) : Nat :=
  s.queue.length + 2 * s.hand.toList.length + 2 * s.outstanding.length

/-- How far the loop is from its next piece of work, as long as there is some. -/
def distance (s : State τ ω) : Nat :=
  match s.pc with
  | .progress => if s.outstanding.isEmpty then 3 else 0
  | .check => 2
  | .runSome => if s.queue.isEmpty then 1 else 0
  | .returned => 0

/-- The steps that the pending nodes still take. -/
def todo (s : State τ ω) : Nat := 3 * nodes s - begun s

/-- A bound on the steps of the loop thread until nothing is pending, but for the polls
that get it nothing. -/
def budget (s : State τ ω) : Nat := 4 * todo s + distance s

omit [DecidableEq τ] in
theorem begun_le (s : State τ ω) : begun s ≤ 3 * nodes s := by
  have hlen : (pending s).length ≤ nodes s := by
    have h := Forest.length_preorder_children (pending s)
    unfold nodes
    omega
  simp only [pending, List.length_append, List.length_map] at hlen
  have hhand : s.hand.toList.length = (s.hand.map s.work).toList.length := by
    cases s.hand <;> rfl
  unfold begun
  omega

omit [DecidableEq τ] in
theorem todo_add_begun (s : State τ ω) : todo s + begun s = 3 * nodes s :=
  Nat.sub_add_cancel (begun_le s)

omit [DecidableEq τ] in
theorem distance_le (s : State τ ω) : distance s ≤ 3 := by
  unfold distance
  split
  · split <;> omega
  · omega
  · split <;> omega
  · omega

omit [DecidableEq τ] in
theorem Inv.log_add_nodes (h : Inv s) : s.log.length + nodes s = s.started.preorder.length := by
  have hperm := h.unfolds.preorder_perm.length_eq
  rwa [List.length_append] at hperm

/-- Something that is started has begun, or has been executed already. -/
theorem begun_start (s : State τ ω) (o : Work τ ω) :
    3 * s.log.length + begun s + 1 ≤ 3 * (start s o).log.length + begun (start s o) := by
  unfold start
  split
  · simp only [begun, List.length_append, List.length_singleton]
    omega
  · simp only [begun, List.length_append, List.length_singleton]
    omega
  · simp only [begun, List.length_append, List.length_singleton]
    omega

omit [DecidableEq τ] in
/-- Beginning or executing something leaves less to do. -/
theorem Inv.todo_lt (h : Inv s) (h' : Inv t) (hstarted : t.started = s.started)
    (hmore : 3 * s.log.length + begun s < 3 * t.log.length + begun t) : todo t < todo s := by
  have hs := h.log_add_nodes
  have ht := h'.log_add_nodes
  have hbs := todo_add_begun s
  have hbt := todo_add_begun t
  rw [hstarted] at ht
  omega

/-- Each step of the loop thread either is a part of the work, or brings the loop closer
to its next piece of work, or is a poll that gets it nothing. -/
theorem Inv.todo_or_distance (h : Inv s) {ev : Event τ ω} (hloop : ev.OnLoop)
    (hpending : pending s ≠ []) (hstep : EventLoop.step s ev = some t) :
    todo t < todo s ∨
      (todo t = todo s ∧ distance t < distance s + 3 * waiting s ev + busy ev) := by
  have h' := h.step hstep
  cases step_effect hstep with
  | start o hfree => exact hloop.elim
  | finish => exact hloop.elim
  | readStop hpc =>
      refine .inr ⟨rfl, ?_⟩
      cases hstop : s.stop_ with
      | true => simp [distance, hpc, waiting, busy]
      | false => cases hqueue : s.queue <;> simp [distance, hpc, waiting, busy]
  | idle loop hpc hhand hrunning hpop =>
      obtain ⟨hqueue, rfl⟩ := h.queue_eq_nil hpop
      have hout : s.outstanding ≠ [] := by
        intro hnone
        exact hpending (by simp [pending, hqueue, hhand, hrunning, hnone])
      exact .inr ⟨rfl, by simp [distance, hpc, hqueue, hout, waiting, busy]⟩
  | popped u loop hpc hhand hrunning hpop =>
      refine .inl (h.todo_lt h' rfl ?_)
      simp only [begun, hhand, List.length_tail, Option.toList_none, Option.toList_some,
        List.length_cons, List.length_nil]
      omega
  | execute u hhand =>
      refine .inl (h.todo_lt h' rfl ?_)
      simp only [begun, hhand, List.length_append, Option.toList_none, Option.toList_some,
        List.length_cons, List.length_nil]
      omega
  | startNext o rest hrunning hfree =>
      obtain ⟨-, -, -, hstarted⟩ := start_frame { s with running := rest } o
      exact .inl (h.todo_lt h' hstarted (begun_start { s with running := rest } o))
  | polled n hpc hrunning =>
      refine .inr ⟨rfl, ?_⟩
      by_cases hn : n = 0
      · cases hout : s.outstanding <;> simp [distance, hpc, hout, hn, waiting, busy]
      · simp [distance, hpc, hn, waiting, busy]
  | completed i o hpc hrunning ho =>
      obtain ⟨hi, hget⟩ := List.getElem?_eq_some_iff.mp ho
      have herase := List.length_eraseIdx_add_one hi
      refine .inl (h.todo_lt h' rfl ?_)
      simp only [begun, List.length_append, List.length_singleton]
      omega

theorem Inv.budget_step (h : Inv s) {ev : Event τ ω} (hloop : ev.OnLoop)
    (hpending : pending s ≠ []) (hstep : EventLoop.step s ev = some t) :
    budget t + 1 ≤ budget s + 3 * waiting s ev + busy ev := by
  have hdistance := distance_le t
  unfold budget
  rcases h.todo_or_distance hloop hpending hstep with hless | ⟨hsame, hless⟩ <;> omega

/-- The loop thread starts nothing when nothing is pending. -/
theorem Inv.pending_eq_nil (h : Inv s) {ev : Event τ ω} (hloop : ev.OnLoop)
    (hpending : pending s = []) (hstep : EventLoop.step s ev = some t) : pending t = [] := by
  have hs := h.log_add_nodes
  have ht := (h.step hstep).log_add_nodes
  have hstarted : t.started = s.started ∧ s.log.length ≤ t.log.length := by
    cases step_effect hstep with
    | start o hfree => exact hloop.elim
    | finish => exact hloop.elim
    | readStop | idle | popped | polled => exact ⟨rfl, le_rfl⟩
    | execute | completed => exact ⟨rfl, by simp⟩
    | startNext o rest hrunning hfree => simp [pending, hrunning] at hpending
  have hnone : nodes s = 0 := by simp [nodes, hpending]
  rw [hstarted.1] at ht
  exact Forest.eq_nil_of_length_preorder (by unfold nodes at *; omega)

theorem Inv.pending_eq_nil_of_run (h : Inv s) {work : τ → Work τ ω} {es : List (Event τ ω)}
    (hloop : ∀ ev ∈ es, ev.OnLoop) (hpending : pending s = [])
    (hrun : (machine work).run s es = some t) : pending t = [] := by
  induction es generalizing s with
  | nil => exact Option.some.inj hrun ▸ hpending
  | cons ev es ih =>
      obtain ⟨u, hstep, hrest⟩ := Option.bind_eq_some_iff.mp hrun
      obtain ⟨hev, hes⟩ := List.forall_mem_cons.mp hloop
      exact ih (h.step hstep) hes (h.pending_eq_nil hev hpending hstep) hrest

/-- A run of the loop thread that does not get everything done is no longer than the
budget allows. -/
theorem Inv.length_le (h : Inv s) {work : τ → Work τ ω} {es : List (Event τ ω)}
    (hloop : ∀ ev ∈ es, ev.OnLoop) (hrun : (machine work).run s es = some t)
    (hpending : pending t ≠ []) : es.length ≤ budget s + 3 * waits s es + busyPolls es := by
  induction es generalizing s with
  | nil => exact Nat.zero_le _
  | cons ev es ih =>
      obtain ⟨u, hstep, hrest⟩ := Option.bind_eq_some_iff.mp hrun
      obtain ⟨hev, hes⟩ := List.forall_mem_cons.mp hloop
      have hu := h.step hstep
      have hnow : pending s ≠ [] := by
        intro hnone
        exact hpending (h.pending_eq_nil_of_run hloop hnone hrun)
      have hbudget := h.budget_step hev hnow hstep
      have hlength := ih hu hes hrest
      have hwaits : waits s (ev :: es) = waiting s ev + waits u es := by
        show waiting s ev + ((EventLoop.step s ev).map fun t => waits t es).getD 0 = _
        have hsome : EventLoop.step s ev = some u := hstep
        rw [hsome, Option.map_some, Option.getD_some]
      have hbusy : busyPolls (ev :: es) = busy ev + busyPolls es := List.sum_cons
      rw [hwaits, hbusy, List.length_cons]
      omega

/-- What is to be started next is a task whose storage is in use. -/
def Blocked (s : State τ ω) : Prop := ∃ o rest, s.running = o :: rest ∧ ¬Free s o

/-- The loop thread can always do something by itself, or asks DOCA. -/
theorem exists_effect (s : State τ ω) (hpc : s.pc ≠ .returned) :
    Blocked s ∨ (∃ ev t, ev.OnLoop ∧ ¬ev.OfDoca ∧ Effect s ev t) ∨
      (s.pc = .progress ∧ s.running = []) := by
  cases hhand : s.hand with
  | some u => exact .inr (.inl ⟨.execute, _, trivial, id, .execute u hhand⟩)
  | none =>
      cases hrunning : s.running with
      | cons o rest =>
          by_cases hfree : Free s o
          · exact .inr (.inl ⟨.startNext, _, trivial, id, .startNext o rest hrunning hfree⟩)
          · exact .inl ⟨o, rest, hrunning, hfree⟩
      | nil =>
          right
          cases hat : s.pc with
          | check => exact .inl ⟨.readStop, _, trivial, id, .readStop hat⟩
          | runSome =>
              left
              cases hpop : popFront s.loop with
              | mk p loop =>
                  cases p with
                  | head => exact ⟨.popFront, _, trivial, id, .idle loop hat hhand hrunning hpop⟩
                  | task u =>
                      exact ⟨.popFront, _, trivial, id, .popped u loop hat hhand hrunning hpop⟩
          | progress => exact .inr ⟨rfl, rfl⟩
          | returned => exact absurd hat hpc

end Model
end EventLoop
end DocaStdexec
