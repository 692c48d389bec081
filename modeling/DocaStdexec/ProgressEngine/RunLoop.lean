import DocaStdexec.Lib.Fifo
import DocaStdexec.Lib.LinkChain

/-!
# The run-loop queue

`loop::doca_pe_run_loop` keeps its pending tasks in an intrusive circular list.
The sentinel `head` is itself a task: its `next` is the front of the queue and
its union member `tail` is the back.  `push_back_` and `pop_front_` each run
under `mutex_`, so one call is one event.

The file has three layers.

* `Loop`, `pushBack`, `popFront`, `executeImpl` follow the source.
* `Represents` is the shape invariant: the chain of `next` pointers from the
  sentinel is a repetition-free queue that returns to the sentinel, and `tail`
  is its last cell.  `pushBack_represents` and `popFront_represents` are the
  specifications of the two operations.
* `machine` lets any number of producers and of threads inside `run_some`
  interleave, with task storage overwritten freely while it is not queued.  It
  is simulated by the abstract queue `Lib.Fifo`.
-/

namespace DocaStdexec
namespace RunLoop

open Lib

/-- A `task*`: the address of the sentinel, or of a task. -/
inductive Ptr (τ : Type*)
  | head
  | task (t : τ)
  deriving DecidableEq

/-- The queue part of a `doca_pe_run_loop`: the `next` member at every address,
and `head.tail`. -/
@[ext]
structure Loop (τ : Type*) where
  next : Ptr τ → Ptr τ
  tail : Ptr τ

/-- `task head{{}, &head, {&head}}`. -/
def Loop.init {τ : Type*} : Loop τ := ⟨fun _ => .head, .head⟩

/-- What the receiver of a `schedule` operation can be sent. -/
inductive Completion
  | setValue
  | setStopped
  | setError
  deriving DecidableEq

/-- `operation::t::execute_impl`: `stopRequested` is the answer of the
receiver's stop token, and `threw` says that the body of the `try` threw. -/
def executeImpl (stopRequested threw : Bool) : Completion :=
  if threw then .setError
  else if stopRequested then .setStopped
  else .setValue

section Shape

variable {τ : Type*}

/-- The loop's list holds exactly the queue `Q`, front first. -/
structure Represents (l : Loop τ) (Q : List τ) : Prop where
  /-- `head.next`, `head.next->next`, … visits `Q` and returns to `&head`. -/
  chain : Linked l.next .head (Q.map Ptr.task) .head
  /-- No task is queued twice. -/
  nodup : Q.Nodup
  /-- `head.tail` is the last task, or `&head` when there is none. -/
  tail : l.tail = (Q.map Ptr.task).getLastD .head

theorem init_represents : Represents (Loop.init : Loop τ) [] := ⟨rfl, List.nodup_nil, rfl⟩

theorem task_mem_map {t : τ} {Q : List τ} : Ptr.task t ∈ Q.map Ptr.task ↔ t ∈ Q := by
  simp

theorem task_mem_cells {t : τ} {Q : List τ} :
    Ptr.task t ∈ Ptr.head :: Q.map Ptr.task ↔ t ∈ Q := by
  simp

theorem cells_nodup {Q : List τ} (hQ : Q.Nodup) : (Ptr.head :: Q.map Ptr.task).Nodup := by
  refine List.nodup_cons.mpr ⟨by simp, hQ.map ?_⟩
  intro a b hab
  exact Ptr.task.inj hab

/-- Neither the sentinel nor a queued task points to a task that is not
queued. -/
theorem Represents.unreferenced {l : Loop τ} {Q : List τ} (h : Represents l Q)
    {t : τ} (ht : t ∉ Q) :
    l.tail ≠ .task t ∧ l.next .head ≠ .task t ∧ ∀ u ∈ Q, l.next (.task u) ≠ .task t := by
  have hnext (p : Ptr τ) (hp : p ∈ Ptr.head :: Q.map Ptr.task) : l.next p ≠ .task t := by
    intro hpt
    rcases h.chain.next_mem hp with hmem | hend
    · exact ht (task_mem_map.mp (hpt ▸ hmem))
    · simp [hpt] at hend
  refine ⟨?_, hnext _ (by simp), fun u hu => hnext _ (task_mem_cells.mpr hu)⟩
  intro htail
  have hmem : l.tail ∈ Ptr.head :: Q.map Ptr.task := h.tail ▸ List.getLastD_mem_cons
  exact ht (task_mem_cells.mp (htail ▸ hmem))
end Shape

section Operations

variable {τ : Type*} [DecidableEq τ]

/-- `p->next = q`. -/
def Loop.setNext (l : Loop τ) (p q : Ptr τ) : Loop τ :=
  { l with next := Function.update l.next p q }

/-- `push_back_`.  The right operand of `head.tail = head.tail->next = task` is
evaluated first, so the inner assignment still sees the old `head.tail`. -/
def pushBack (l : Loop τ) (t : τ) : Loop τ :=
  let l := l.setNext (.task t) .head
  let l := l.setNext l.tail (.task t)
  { l with tail := .task t }

/-- `pop_front_`, with the pointer that `std::exchange` returns. -/
def popFront (l : Loop τ) : Ptr τ × Loop τ :=
  -- the front is the back: the list will be empty
  let l := if l.tail = l.next .head then { l with tail := .head } else l
  (l.next .head, l.setNext .head (l.next (l.next .head)))

/-- Overwriting the storage of a task that is not queued keeps the queue. -/
theorem Represents.setNext_of_notMem {l : Loop τ} {Q : List τ} (h : Represents l Q)
    {t : τ} (ht : t ∉ Q) (w : Ptr τ) : Represents (l.setNext (.task t) w) Q where
  chain := (Linked.update_of_notMem (mt task_mem_cells.mp ht)).mpr h.chain
  nodup := h.nodup
  tail := h.tail

/-- `push_back_` appends a task that is not queued. -/
theorem pushBack_represents {l : Loop τ} {Q : List τ} (h : Represents l Q)
    {t : τ} (ht : t ∉ Q) : Represents (pushBack l t) (Q ++ [t]) := by
  have hstored := h.setNext_of_notMem ht .head
  refine ⟨?_, ?_, ?_⟩
  · have hsnoc := hstored.chain.snoc (cells_nodup h.nodup) (b := .task t)
      (mt task_mem_cells.mp ht) (r := .head) (by simp [Loop.setNext])
    rw [← hstored.tail] at hsnoc
    simpa [pushBack, Loop.setNext] using hsnoc
  · exact List.nodup_append.mpr ⟨h.nodup, by simp, by
      intro a ha b hb
      rintro rfl
      exact ht (by simpa [List.mem_singleton.mp hb] using ha)⟩
  · rw [List.map_append, List.map_singleton, List.getLastD_concat]
    rfl

theorem popFront_fst (l : Loop τ) : (popFront l).1 = l.next .head := by
  unfold popFront
  split <;> rfl

theorem popFront_next (l : Loop τ) :
    (popFront l).2.next = Function.update l.next .head (l.next (l.next .head)) := by
  unfold popFront
  split <;> rfl

theorem popFront_tail (l : Loop τ) :
    (popFront l).2.tail = if l.tail = l.next .head then .head else l.tail := by
  unfold popFront
  split <;> rfl

/-- `pop_front_` on an empty queue returns `&head` and changes no field. -/
theorem popFront_of_nil {l : Loop τ} (h : Represents l []) : popFront l = (.head, l) := by
  have hnext : l.next .head = .head := h.chain
  have htail : l.tail = .head := h.tail
  have hlinks : (popFront l).2.next = l.next := by
    rw [popFront_next, hnext, hnext]
    exact Function.update_eq_self_iff.mpr hnext.symm
  have hback : (popFront l).2.tail = l.tail := by
    rw [popFront_tail, htail, hnext, if_pos rfl]
  exact Prod.ext ((popFront_fst l).trans hnext) (Loop.ext hlinks hback)

/-- `pop_front_` on a non-empty queue removes and returns its first task. -/
theorem popFront_of_cons {l : Loop τ} {t : τ} {Q : List τ} (h : Represents l (t :: Q)) :
    (popFront l).1 = .task t ∧ Represents (popFront l).2 Q := by
  obtain ⟨hfront, hrest⟩ := h.chain
  obtain ⟨htQ, hQ⟩ := List.nodup_cons.mp h.nodup
  have htail : l.tail = (Q.map Ptr.task).getLastD (.task t) := by
    rw [h.tail, List.map_cons, List.getLastD_cons]
  refine ⟨(popFront_fst l).trans hfront, ?_, hQ, ?_⟩
  · -- the write goes to the sentinel, which the rest of the chain does not visit
    rw [popFront_next, hfront]
    cases Q with
    | nil => simpa using hrest
    | cons u Q =>
        obtain ⟨hu, hrest⟩ := hrest
        exact ⟨by simpa using hu, (Linked.update_of_notMem (by simp)).mpr hrest⟩
  · rw [popFront_tail, htail, hfront]
    cases Q with
    | nil => exact if_pos rfl
    | cons u Q =>
        rw [List.map_cons, List.getLastD_cons, List.getLastD_cons]
        refine if_neg fun hlast => htQ (task_mem_map.mp ?_)
        rw [List.map_cons, ← hlast]
        exact List.getLastD_mem_cons

end Operations

/-! ## Producers and loop threads, interleaved -/

section System

/-- The loop, the local variable `task` of `run_some` on every thread, and the
histories: the pushes in lock order, the tasks in the order in which
`pop_front_` handed them to `execute()`, what each `execute()` sent to its
receiver, and the operations that `start` completed with an error because it
could not lock. -/
structure State (τ θ : Type*) where
  loop : Loop τ
  task : θ → Option τ
  pushed : List τ
  popped : List τ
  completed : List (τ × Completion)
  refused : List (τ × Completion)

/-- The tasks whose `execute()` ran, in that order. -/
def State.executed {τ θ : Type*} (s : State τ θ) : List τ :=
  s.completed.map Prod.fst

variable {τ θ : Type*} [DecidableEq τ] [DecidableEq θ]

/-- A task is queued from its push until its pop. -/
def State.Queued (s : State τ θ) (t : τ) : Prop :=
  s.popped.count t < s.pushed.count t

instance (s : State τ θ) (t : τ) : Decidable (s.Queued t) :=
  inferInstanceAs (Decidable (_ < _))

inductive Event (τ θ : Type*)
  /-- `operation::t::start` on some producer; `locked` is false when locking
  `mutex_` throws. -/
  | start (t : τ) (locked : Bool)
  /-- One `pop_front_` of the loop in `run_some` on thread `i`. -/
  | popFront (i : θ)
  /-- The `task->execute()` that follows a successful pop. -/
  | execute (i : θ) (stopRequested threw : Bool)
  /-- Any other use of the storage of a task: construction, destruction, reuse. -/
  | store (t : τ) (w : Ptr τ)

def State.init : State τ θ := ⟨Loop.init, fun _ => none, [], [], [], []⟩

/-- The caller never starts a queued operation again, and never touches the
storage of one. -/
def step (s : State τ θ) : Event τ θ → Option (State τ θ)
  | .start t locked =>
      if s.Queued t then none
      else if locked then
        some { s with loop := pushBack s.loop t, pushed := s.pushed ++ [t] }
      else
        some { s with refused := s.refused ++ [(t, .setError)] }
  | .popFront i =>
      match s.task i with
      | some _ => none
      | none =>
          match popFront s.loop with
          | (.head, loop) => some { s with loop := loop }
          | (.task t, loop) =>
              some { s with
                loop := loop
                task := Function.update s.task i (some t)
                popped := s.popped ++ [t] }
  | .execute i stopRequested threw =>
      match s.task i with
      | none => none
      | some t =>
          some { s with
            task := Function.update s.task i none
            completed := s.completed ++ [(t, executeImpl stopRequested threw)] }
  | .store t w =>
      if s.Queued t then none
      else some { s with loop := s.loop.setNext (.task t) w }

variable (τ θ) in
/-- Any number of producers and of threads in `run_some`. -/
def machine : Machine (State τ θ) (Event τ θ) := ⟨State.init, step⟩

/-- Everything a step can do, with the guard under which it does it. -/
inductive Effect (s : State τ θ) : Event τ θ → State τ θ → Prop
  | pushed (t : τ) (hfresh : ¬ s.Queued t) :
      Effect s (.start t true)
        { s with loop := pushBack s.loop t, pushed := s.pushed ++ [t] }
  | refused (t : τ) (hfresh : ¬ s.Queued t) :
      Effect s (.start t false) { s with refused := s.refused ++ [(t, .setError)] }
  | idle (i : θ) (loop : Loop τ) (hfree : s.task i = none)
      (hpop : popFront s.loop = (.head, loop)) :
      Effect s (.popFront i) { s with loop := loop }
  | popped (i : θ) (t : τ) (loop : Loop τ) (hfree : s.task i = none)
      (hpop : popFront s.loop = (.task t, loop)) :
      Effect s (.popFront i)
        { s with
          loop := loop
          task := Function.update s.task i (some t)
          popped := s.popped ++ [t] }
  | executed (i : θ) (t : τ) (stopRequested threw : Bool) (hhand : s.task i = some t) :
      Effect s (.execute i stopRequested threw)
        { s with
          task := Function.update s.task i none
          completed := s.completed ++ [(t, executeImpl stopRequested threw)] }
  | stored (t : τ) (w : Ptr τ) (hfresh : ¬ s.Queued t) :
      Effect s (.store t w) { s with loop := s.loop.setNext (.task t) w }

theorem step_effect {s t : State τ θ} {e : Event τ θ} (hstep : step s e = some t) :
    Effect s e t := by
  cases e with
  | start u locked =>
      by_cases hu : s.Queued u
      · simp [step, hu] at hstep
      · cases locked with
        | true =>
            simp only [step, if_neg hu, if_true, Option.some.injEq] at hstep
            exact hstep ▸ .pushed u hu
        | false =>
            simp only [step, if_neg hu, Bool.false_eq_true, if_false, Option.some.injEq] at hstep
            exact hstep ▸ .refused u hu
  | popFront i =>
      cases hi : s.task i with
      | some u => simp [step, hi] at hstep
      | none =>
          simp only [step, hi] at hstep
          split at hstep <;> obtain rfl := Option.some.inj hstep
          · exact .idle i _ hi ‹_›
          · exact .popped i _ _ hi ‹_›
  | execute i stopRequested threw =>
      cases hi : s.task i with
      | none => simp [step, hi] at hstep
      | some u =>
          simp only [step, hi, Option.some.injEq] at hstep
          exact hstep ▸ .executed i u stopRequested threw hi
  | store u w =>
      by_cases hu : s.Queued u
      · simp [step, hu] at hstep
      · simp only [step, if_neg hu, Option.some.injEq] at hstep
        exact hstep ▸ .stored u w hu

theorem Effect.step_eq {s t : State τ θ} {e : Event τ θ} (h : Effect s e t) :
    step s e = some t := by
  cases h with
  | pushed u hfresh => simp [step, hfresh]
  | refused u hfresh => simp [step, hfresh]
  | idle i loop hfree hpop => simp [step, hfree, hpop]
  | popped i u loop hfree hpop => simp [step, hfree, hpop]
  | executed i u stopRequested threw hhand => simp [step, hhand]
  | stored u w hfresh => simp [step, hfresh]

/-- The abstraction relation to the FIFO queue. -/
structure Refines (s : State τ θ) (q : Fifo τ) : Prop where
  represents : Represents s.loop q.contents
  pushed : s.pushed = q.pushed
  popped : s.popped = q.popped
  conservation : q.pushed = q.popped ++ q.contents

omit [DecidableEq θ] in
/-- The queued tasks are the contents of the abstract queue. -/
theorem Refines.queued_iff {s : State τ θ} {q : Fifo τ} (h : Refines s q) (t : τ) :
    s.Queued t ↔ t ∈ q.contents := by
  unfold State.Queued
  rw [h.pushed, h.popped, h.conservation, List.count_append, ← List.count_pos_iff]
  omega

/-- One step of the loop is one step of the abstract queue, or none. -/
theorem step_refines {s t : State τ θ} {e : Event τ θ} {q : Fifo τ}
    (h : Refines s q) (hstep : step s e = some t) :
    ∃ es r, (Fifo.machine τ).run q es = some r ∧ Refines t r := by
  cases step_effect hstep with
  | pushed u hfresh =>
      have hu : u ∉ q.contents := mt (h.queued_iff u).mpr hfresh
      refine ⟨[.push u], _, rfl, pushBack_represents h.represents hu, ?_, h.popped, ?_⟩
      · rw [← h.pushed]
      · simp [h.conservation]
  | refused u hfresh => exact ⟨[], q, rfl, h.represents, h.pushed, h.popped, h.conservation⟩
  | idle i loop hfree hpop =>
      cases hcontents : q.contents with
      | nil =>
          rw [popFront_of_nil (hcontents ▸ h.represents)] at hpop
          obtain rfl := (Prod.mk.inj hpop).2
          exact ⟨[], q, rfl, h⟩
      | cons u rest =>
          -- a non-empty queue does not return the sentinel
          have hfst := (popFront_of_cons (hcontents ▸ h.represents)).1
          simp [hpop] at hfst
  | popped i u loop hfree hpop =>
      cases hcontents : q.contents with
      | nil => simp [popFront_of_nil (hcontents ▸ h.represents)] at hpop
      | cons v rest =>
          obtain ⟨hfst, hrest⟩ := popFront_of_cons (hcontents ▸ h.represents)
          rw [hpop] at hfst hrest
          obtain rfl := Ptr.task.inj hfst
          refine ⟨[.pop], { q with contents := rest, popped := q.popped ++ [u] }, ?_,
            hrest, h.pushed, by rw [h.popped], ?_⟩
          · simp [Fifo.machine, Fifo.step, hcontents]
          · simp [h.conservation, hcontents]
  | executed i u stopRequested threw hhand =>
      exact ⟨[], q, rfl, h.represents, h.pushed, h.popped, h.conservation⟩
  | stored u w hfresh =>
      exact ⟨[], q, rfl, h.represents.setNext_of_notMem (mt (h.queued_iff u).mpr hfresh) w,
        h.pushed, h.popped, h.conservation⟩

/-- The run-loop queue is simulated by the abstract FIFO queue. -/
theorem refines_fifo : (machine τ θ).Simulation (Fifo.machine τ) Refines where
  init := ⟨init_represents, rfl, rfl, rfl⟩
  step := step_refines

/-- What was handed to `execute()` is a prefix of what was pushed. -/
theorem popped_prefix_pushed {s : State τ θ} (hs : (machine τ θ).Reachable s) :
    s.popped <+: s.pushed := by
  obtain ⟨q, hq, href⟩ := refines_fifo.reachable hs
  rw [href.popped, href.pushed]
  exact Fifo.popped_prefix_pushed hq

/-- `head.next == &head` exactly when every pushed task has been popped. -/
theorem next_head_eq_iff {s : State τ θ} (hs : (machine τ θ).Reachable s) :
    s.loop.next .head = .head ↔ s.pushed = s.popped := by
  obtain ⟨q, -, href⟩ := refines_fifo.reachable hs
  have hempty : s.pushed = s.popped ↔ q.contents = [] := by
    rw [href.pushed, href.popped, href.conservation, List.append_right_eq_self]
  rw [hempty]
  cases hcontents : q.contents with
  | nil => simpa [hcontents] using href.represents.chain
  | cons t rest =>
      have hfront := (hcontents ▸ href.represents.chain :
        Linked s.loop.next .head ((t :: rest).map Ptr.task) .head).1
      simp [hfront]

/-- What has been popped is what has been executed, followed by the task in
hand. -/
def State.InOrder (s : State τ θ) : Prop :=
  s.executed <+: s.popped ∧ ∀ i, s.popped = s.executed ++ (s.task i).toList

/-- With at most one thread in `run_some`, tasks run in the order in which they
were popped. -/
theorem inOrder_of_single (hone : ∀ i j : θ, i = j) {s : State τ θ}
    (hs : (machine τ θ).Reachable s) : s.InOrder := by
  have hinit : (State.init : State τ θ).InOrder := ⟨List.nil_prefix, fun _ => rfl⟩
  refine hs.invariant hinit ?_
  rintro s e t ⟨hpopped, htask⟩ hstep
  cases step_effect hstep with
  | pushed | refused | idle | stored => exact ⟨hpopped, htask⟩
  | popped i u loop hfree hpop =>
      -- the only thread has nothing in hand, so all popped tasks have run
      have hdone : s.popped = s.executed := by simpa [hfree] using htask i
      refine ⟨hpopped.trans (List.prefix_append _ _), fun j => ?_⟩
      simp [hone j i, hdone, State.executed]
  | executed i u stopRequested threw hhand =>
      have hlast : s.popped = s.executed ++ [u] := by simpa [hhand] using htask i
      refine ⟨by simp [hlast, State.executed], fun j => ?_⟩
      simp [hone j i, hlast, State.executed]

/-- The queue of the run loop is a FIFO queue in every reachable state: the
chain from the sentinel is exactly the sequence of queued tasks, `push_back_`
and `pop_front_` act on it as on a queue, what was handed to `execute()` is a
prefix of what was pushed, and nothing points to a task that is not queued. -/
theorem runLoopQueue_refines_fifo {s : State τ θ} (hs : (machine τ θ).Reachable s) :
    ∃ Q : List τ,
      Represents s.loop Q ∧
      (∀ t, t ∈ Q ↔ s.Queued t) ∧
      (∀ t, ¬ s.Queued t → Represents (pushBack s.loop t) (Q ++ [t])) ∧
      (∀ t rest, Q = t :: rest →
        (popFront s.loop).1 = .task t ∧ Represents (popFront s.loop).2 rest) ∧
      (Q = [] → popFront s.loop = (.head, s.loop)) ∧
      s.pushed = s.popped ++ Q ∧
      (∀ t, ¬ s.Queued t →
        s.loop.tail ≠ .task t ∧ s.loop.next .head ≠ .task t ∧
          ∀ u ∈ Q, s.loop.next (.task u) ≠ .task t) ∧
      s.popped <+: s.pushed ∧
      ((∀ i j : θ, i = j) → s.executed <+: s.pushed) := by
  obtain ⟨q, hq, href⟩ := refines_fifo.reachable hs
  have hqueued (t : τ) : t ∈ q.contents ↔ s.Queued t := (href.queued_iff t).symm
  have hpopped := popped_prefix_pushed hs
  refine ⟨q.contents, href.represents, hqueued, ?_, ?_, ?_, ?_, ?_, hpopped, ?_⟩
  · intro t ht
    exact pushBack_represents href.represents (mt (hqueued t).mp ht)
  · intro t rest hQ
    exact popFront_of_cons (hQ ▸ href.represents)
  · intro hQ
    exact popFront_of_nil (hQ ▸ href.represents)
  · rw [href.pushed, href.popped]
    exact Fifo.conservation hq
  · intro t ht
    exact href.represents.unreferenced (mt (hqueued t).mp ht)
  · intro hone
    exact (inOrder_of_single hone hs).1.trans hpopped

/-- A task that is executed, whose storage is overwritten with a pointer into
the queue, and that is then started again. -/
theorem runLoopQueue_refines_fifo_restart :
    ∃ s : State Nat Unit,
      (machine Nat Unit).run State.init
        [.start 3 true, .start 4 true, .popFront (), .execute () false false,
          .store 3 (.task 4), .start 3 true] = some s ∧
      s.pushed = [3, 4, 3] ∧ s.executed = [3] ∧ s.executed <+: s.pushed := by
  refine ⟨_, rfl, rfl, rfl, ?_⟩
  obtain ⟨Q, -, -, -, -, -, -, -, -, hexecuted⟩ := runLoopQueue_refines_fifo (τ := Nat)
    (θ := Unit) ⟨[.start 3 true, .start 4 true, .popFront (), .execute () false false,
      .store 3 (.task 4), .start 3 true], rfl⟩
  exact hexecuted fun _ _ => rfl

end System

end RunLoop
end DocaStdexec
