import DocaStdexec.Lib.Forest
import DocaStdexec.ProgressEngine.RunLoop

/-!
# Tasks that start tasks

A task that `run_some` executes may start other operations on the same loop, itself
included, while `run_some` goes through the list.  What the operation at an address
will do is a finite tree: the receiver's answer to `execute_impl`, and the operations
that it starts.  `run_some` goes through a forest of such trees in level order and
returns with the list empty.  Without another producer it is one of the runs of the
queue machine of `RunLoop`.  Here every `push_back_` gets the mutex; what a start does that
does not is in `EventLoop`.
-/

namespace DocaStdexec
namespace Reentrancy

open Lib
open RunLoop (Loop Ptr Represents Completion pushBack popFront executeImpl)

/-- One operation: its address and how its execution ends. -/
structure Job (τ : Type*) where
  task : τ
  stopRequested : Bool
  threw : Bool

/-- What the receiver gets. -/
def Job.completion {τ : Type*} (j : Job τ) : τ × Completion :=
  (j.task, executeImpl j.stopRequested j.threw)

/-- The loop, the operation at every address with all that it is going to start, and
the completions that have been sent. -/
structure State (τ : Type*) where
  loop : Loop τ
  operation : τ → RoseTree (Job τ)
  completed : List (τ × Completion)

section Model

variable {τ : Type*} [DecidableEq τ]

/-- An operation is constructed at its address and started, and `push_back_` gets the
mutex. -/
def start (s : State τ) (o : RoseTree (Job τ)) : State τ :=
  { s with
    loop := pushBack s.loop o.root.task
    operation := Function.update s.operation o.root.task o }

/-- `task->execute()`: the receiver gets its completion and starts other operations. -/
def execute (s : State τ) (t : τ) : State τ :=
  let o := s.operation t
  o.children.foldl start { s with completed := s.completed ++ [o.root.completion] }

/-- `run_some`, or `none` when it makes `fuel` calls to `pop_front_` without
returning. -/
def runSome : Nat → State τ → Option (State τ)
  | 0, _ => none
  | fuel + 1, s =>
      match popFront s.loop with
      | (.head, loop) => some { s with loop := loop }
      | (.task t, loop) => runSome fuel (execute { s with loop := loop } t)

end Model

section Queue

variable {τ : Type*}

/-- The addresses of the queued operations. -/
def tasks (F : Forest (Job τ)) : List τ := F.roots.map Job.task

/-- No operation is started while it is queued: each execution puts the children
behind the rest of the queue, which never holds an address twice. -/
def NeverQueuedTwice (F : Forest (Job τ)) : Prop := ∀ k, (tasks (Forest.advance^[k] F)).Nodup

instance [DecidableEq τ] (F : Forest (Job τ)) : Decidable (NeverQueuedTwice F) :=
  decidable_of_iff (∀ k < F.preorder.length, (tasks (Forest.advance^[k] F)).Nodup)
    ⟨fun h k => (lt_or_ge k F.preorder.length).elim (h k) fun hk => by
      rw [Forest.advance_iterate_of_le hk]
      exact List.nodup_nil, fun h k _ => h k⟩

/-- The loop holds the roots of the forest, and they are as the forest says. -/
structure Holds (s : State τ) (F : Forest (Job τ)) : Prop where
  represents : Represents s.loop (tasks F)
  operation : ∀ o ∈ F, s.operation o.root.task = o

theorem tasks_cons (o : RoseTree (Job τ)) (F : Forest (Job τ)) :
    tasks (o :: F) = o.root.task :: tasks F := rfl

theorem tasks_append (F G : Forest (Job τ)) : tasks (F ++ G) = tasks F ++ tasks G := by
  rw [tasks, Forest.roots_append, List.map_append]
  rfl

theorem mem_tasks {F : Forest (Job τ)} {o : RoseTree (Job τ)} (ho : o ∈ F) :
    o.root.task ∈ tasks F :=
  List.mem_map_of_mem (List.mem_map_of_mem ho)

theorem notMem_of_nodup {F G : Forest (Job τ)} {o : RoseTree (Job τ)}
    (hnodup : (tasks (F ++ [o] ++ G)).Nodup) : o.root.task ∉ tasks F := by
  rw [tasks_append, tasks_append] at hnodup
  have hfirst := (List.nodup_append.mp hnodup).1
  exact fun hmem => (List.nodup_append.mp hfirst).2.2 _ hmem _ (by simp [tasks_cons]) rfl

theorem NeverQueuedTwice.nodup {F : Forest (Job τ)} (h : NeverQueuedTwice F) : (tasks F).Nodup :=
  h 0

theorem NeverQueuedTwice.advance {o : RoseTree (Job τ)} {F : Forest (Job τ)}
    (h : NeverQueuedTwice (o :: F)) : NeverQueuedTwice (F ++ o.children) :=
  fun k => h (k + 1)

variable [DecidableEq τ] {s : State τ} {o : RoseTree (Job τ)} {F G : Forest (Job τ)}

/-- Starting one operation. -/
theorem Holds.start (h : Holds s F) (ho : o.root.task ∉ tasks F) :
    Holds (start s o) (F ++ [o]) := by
  refine ⟨?_, fun p hp => ?_⟩
  · rw [tasks_append]
    exact RunLoop.pushBack_represents h.represents ho
  · rcases List.mem_append.mp hp with hp | hp
    · have hne : p.root.task ≠ o.root.task := fun hpo => ho (hpo ▸ mem_tasks hp)
      exact (Function.update_of_ne hne _ _).trans (h.operation p hp)
    · obtain rfl := List.mem_singleton.mp hp
      exact Function.update_self _ _ _

/-- Starting one operation after the other. -/
theorem Holds.startAll (h : Holds s F) (hnodup : (tasks (F ++ G)).Nodup) :
    Holds (G.foldl Reentrancy.start s) (F ++ G) := by
  induction G generalizing s F with
  | nil => rwa [List.append_nil]
  | cons o G ih =>
      rw [List.append_cons] at hnodup ⊢
      exact ih (h.start (notMem_of_nodup hnodup)) hnodup

theorem foldl_start_completed (G : Forest (Job τ)) (s : State τ) :
    (G.foldl start s).completed = s.completed := by
  induction G generalizing s with
  | nil => rfl
  | cons o G ih => exact ih (start s o)

/-- One round of `run_some`. -/
theorem Holds.execute_front (h : Holds s (o :: F)) (hnodup : (tasks (F ++ o.children)).Nodup) :
    ∃ loop, popFront s.loop = (.task o.root.task, loop) ∧
      Holds (execute { s with loop := loop } o.root.task) (F ++ o.children) ∧
      (execute { s with loop := loop } o.root.task).completed =
        s.completed ++ [o.root.completion] := by
  obtain ⟨hfront, hrest⟩ := RunLoop.popFront_of_cons h.represents
  have ho : s.operation o.root.task = o := h.operation o List.mem_cons_self
  refine ⟨(popFront s.loop).2, Prod.ext hfront rfl, ?_, ?_⟩
  · have hpopped : Holds { s with
        loop := (popFront s.loop).2
        completed := s.completed ++ [o.root.completion] } F :=
      ⟨hrest, fun p hp => h.operation p (List.mem_cons_of_mem _ hp)⟩
    simpa only [execute, ho] using hpopped.startAll hnodup
  · simp only [execute, ho]
    exact foldl_start_completed _ _

theorem runSome_of_head {loop : Loop τ} (hpop : popFront s.loop = (.head, loop)) (fuel : Nat) :
    runSome (fuel + 1) s = some { s with loop := loop } := by
  rw [runSome, hpop]

theorem runSome_of_task {loop : Loop τ} {t : τ} (hpop : popFront s.loop = (.task t, loop))
    (fuel : Nat) : runSome (fuel + 1) s = runSome fuel (execute { s with loop := loop } t) := by
  rw [runSome, hpop]

/-- The induction is on the part of the forest that has not been executed. -/
theorem Holds.runSome (h : Holds s F) (hpushed : NeverQueuedTwice F) {fuel : Nat}
    (hfuel : F.preorder.length < fuel) :
    ∃ t, Reentrancy.runSome fuel s = some t ∧ Represents t.loop [] ∧
      t.completed = s.completed ++ F.levelOrder.map Job.completion := by
  induction F using Forest.queueInduction generalizing s fuel with
  | nil =>
      obtain ⟨fuel, rfl⟩ := Nat.exists_eq_add_one_of_ne_zero (Nat.ne_zero_of_lt hfuel)
      have hempty : popFront s.loop = (.head, s.loop) := RunLoop.popFront_of_nil h.represents
      exact ⟨s, runSome_of_head hempty fuel, h.represents, (List.append_nil _).symm⟩
  | cons o F ih =>
      obtain ⟨fuel, rfl⟩ := Nat.exists_eq_add_one_of_ne_zero (Nat.ne_zero_of_lt hfuel)
      obtain ⟨loop, hpop, hnext, hcompleted⟩ := h.execute_front hpushed.advance.nodup
      have hstep := Forest.length_preorder_advance o F
      obtain ⟨t, hrun, hend, horder⟩ := ih hnext hpushed.advance
        (show (F ++ o.children).preorder.length < fuel by omega)
      refine ⟨t, (runSome_of_task hpop fuel).trans hrun, hend, ?_⟩
      rw [horder, hcompleted, Forest.levelOrder_cons, List.map_cons, List.append_assoc]
      rfl

/-- `run_some` returns, has executed the forest in level order, each node once, and
leaves an empty list. -/
theorem runSome_levelOrder (h : Holds s F) (hpushed : NeverQueuedTwice F) {fuel : Nat}
    (hfuel : F.preorder.length < fuel) :
    ∃ t, runSome fuel s = some t ∧
      t.completed = s.completed ++ F.levelOrder.map Job.completion ∧
      F.levelOrder.Perm F.preorder ∧
      t.loop.next .head = .head ∧ t.loop.tail = .head := by
  obtain ⟨t, hrun, hend, horder⟩ := h.runSome hpushed hfuel
  exact ⟨t, hrun, horder, F.levelOrder_perm, hend.chain, hend.tail⟩

/-! ## A run of the queue machine -/

/-- The queue machine, with one thread in `run_some`, stands where `s` does. -/
structure InStep (b : RunLoop.State τ Unit) (s : State τ) (F : Forest (Job τ)) : Prop where
  loop : b.loop = s.loop
  idle : b.task () = none
  completed : b.completed = s.completed
  pushed : b.pushed = b.popped ++ tasks F

variable {b : RunLoop.State τ Unit}

theorem InStep.queued_iff (h : InStep b s F) (t : τ) : b.Queued t ↔ t ∈ tasks F := by
  unfold RunLoop.State.Queued
  rw [h.pushed, List.count_append, ← List.count_pos_iff]
  omega

theorem InStep.start (h : InStep b s F) (ho : o.root.task ∉ tasks F) :
    ∃ c, (RunLoop.machine τ Unit).step b (.start o.root.task true) = some c ∧
      InStep c (start s o) (F ++ [o]) := by
  have hfresh : ¬b.Queued o.root.task := mt (h.queued_iff _).mp ho
  refine ⟨_, (RunLoop.Effect.pushed _ hfresh).step_eq, ?_, h.idle, h.completed, ?_⟩
  · rw [h.loop]
    rfl
  · rw [h.pushed, tasks_append, List.append_assoc]
    rfl

theorem InStep.startAll (h : InStep b s F) (hnodup : (tasks (F ++ G)).Nodup) :
    ∃ c, (RunLoop.machine τ Unit).run b (G.map fun o => .start o.root.task true) = some c ∧
      InStep c (G.foldl Reentrancy.start s) (F ++ G) := by
  induction G generalizing b s F with
  | nil => exact ⟨b, rfl, (List.append_nil F).symm ▸ h⟩
  | cons o G ih =>
      rw [List.append_cons] at hnodup
      obtain ⟨c, hstep, hc⟩ := h.start (notMem_of_nodup hnodup)
      obtain ⟨d, hrun, hd⟩ := ih hc hnodup
      rw [List.append_cons]
      exact ⟨d, Option.bind_eq_some_iff.mpr ⟨c, hstep, hrun⟩, hd⟩

/-- A round of `run_some` is one pop, one execution and the pushes of the children. -/
theorem InStep.execute_front (h : InStep b s (o :: F)) (hs : Holds s (o :: F))
    (hnodup : (tasks (F ++ o.children)).Nodup) {loop : Loop τ}
    (hpop : popFront s.loop = (.task o.root.task, loop)) :
    ∃ es c, (RunLoop.machine τ Unit).run b es = some c ∧
      InStep c (execute { s with loop := loop } o.root.task) (F ++ o.children) := by
  have ho : s.operation o.root.task = o := hs.operation o List.mem_cons_self
  have hpop' : popFront b.loop = (.task o.root.task, loop) := by rw [h.loop, hpop]
  let popped : RunLoop.State τ Unit := { b with
    loop := loop
    task := Function.update b.task () (some o.root.task)
    popped := b.popped ++ [o.root.task] }
  let executed : RunLoop.State τ Unit := { popped with
    task := Function.update popped.task () none
    completed := popped.completed ++ [o.root.completion] }
  have hpopped : RunLoop.step b (.popFront ()) = some popped :=
    (RunLoop.Effect.popped () _ _ h.idle hpop').step_eq
  have hhand : popped.task () = some o.root.task := Function.update_self () _ b.task
  have hexecuted : RunLoop.step popped (.execute () o.root.stopRequested o.root.threw) =
      some executed :=
    (RunLoop.Effect.executed () _ _ _ hhand).step_eq
  have hafter : InStep executed { s with
      loop := loop
      completed := s.completed ++ [o.root.completion] } F := by
    refine ⟨rfl, Function.update_self () _ popped.task, ?_, ?_⟩
    · show b.completed ++ [o.root.completion] = s.completed ++ [o.root.completion]
      rw [h.completed]
    · show b.pushed = b.popped ++ [o.root.task] ++ tasks F
      rw [h.pushed, tasks_cons, List.append_assoc]
      rfl
  obtain ⟨c, hrun, hc⟩ := hafter.startAll hnodup
  refine ⟨.popFront () :: .execute () o.root.stopRequested o.root.threw ::
    o.children.map fun o => .start o.root.task true, c, ?_, ?_⟩
  · exact Option.bind_eq_some_iff.mpr ⟨popped, hpopped,
      Option.bind_eq_some_iff.mpr ⟨executed, hexecuted, hrun⟩⟩
  · simpa only [execute, ho] using hc

/-- What returns goes through the queue machine. -/
theorem InStep.runSome (hb : InStep b s F) (h : Holds s F) (hpushed : NeverQueuedTwice F)
    {fuel : Nat} {t : State τ} (ht : Reentrancy.runSome fuel s = some t) :
    ∃ es c, (RunLoop.machine τ Unit).run b es = some c ∧ InStep c t [] := by
  induction fuel generalizing b s F with
  | zero => simp [Reentrancy.runSome] at ht
  | succ fuel ih =>
      cases F with
      | nil =>
          have hempty : popFront s.loop = (.head, s.loop) := RunLoop.popFront_of_nil h.represents
          rw [runSome_of_head hempty] at ht
          obtain rfl := Option.some.inj ht
          exact ⟨[], b, rfl, hb⟩
      | cons o F =>
          obtain ⟨loop, hpop, hnext, -⟩ := h.execute_front hpushed.advance.nodup
          obtain ⟨es, c, hfirst, hc⟩ := hb.execute_front h hpushed.advance.nodup hpop
          rw [runSome_of_task hpop] at ht
          obtain ⟨fs, d, hrest, hd⟩ := ih hc hnext hpushed.advance ht
          exact ⟨es ++ fs, d, Machine.run_trans _ hfirst hrest, hd⟩

/-- More fuel does not change how `run_some` returns. -/
theorem runSome_le {fuel more : Nat} {t : State τ} (hle : fuel ≤ more)
    (ht : runSome fuel s = some t) : runSome more s = some t := by
  induction fuel generalizing s more with
  | zero => simp [runSome] at ht
  | succ fuel ih =>
      obtain ⟨more, rfl⟩ := Nat.exists_eq_add_of_le' (Nat.zero_lt_of_lt hle)
      cases hpop : popFront s.loop with
      | mk p loop =>
          cases p with
          | head =>
              rw [runSome_of_head hpop] at ht ⊢
              exact ht
          | task u =>
              rw [runSome_of_task hpop] at ht ⊢
              exact ih (Nat.le_of_succ_le_succ hle) ht

/-- Without another producer, `run_some` returns and is a run of the queue machine. -/
theorem runSome_run (h : Holds s F) (hpushed : NeverQueuedTwice F) (hb : InStep b s F) :
    ∃ t, (∀ fuel, F.preorder.length < fuel → runSome fuel s = some t) ∧
      (∀ fuel u, runSome fuel s = some u → u = t) ∧
      ∃ es c, (RunLoop.machine τ Unit).run b es = some c ∧ InStep c t [] := by
  obtain ⟨t, ht, -⟩ := h.runSome hpushed (Nat.lt_succ_self F.preorder.length)
  refine ⟨t, fun fuel hfuel => runSome_le hfuel ht, fun fuel u hu => ?_, hb.runSome h hpushed ht⟩
  rcases Nat.le_total fuel (F.preorder.length + 1) with hle | hle
  · exact Option.some.inj ((runSome_le hle hu).symm.trans ht)
  · exact Option.some.inj (hu.symm.trans (runSome_le hle ht))

end Queue

/-- A task that starts itself again and one more, beside a task that starts a third. -/
theorem runSome_levelOrder_self :
    let first : RoseTree (Job Nat) :=
      .node ⟨3, false, false⟩ [.node ⟨3, true, false⟩ [], .node ⟨5, false, false⟩ []]
    let second : RoseTree (Job Nat) := .node ⟨4, false, true⟩ [.node ⟨6, false, false⟩ []]
    ∃ t, runSome 6 (start (start ⟨Loop.init, fun t => .node ⟨t, false, false⟩ [], []⟩ first)
        second) = some t ∧
      t.completed = [(3, .setValue), (4, .setError), (3, .setStopped), (5, .setValue),
        (6, .setValue)] ∧
      t.loop.next .head = .head ∧ t.loop.tail = .head := by
  intro first second
  have hnone : Holds ⟨Loop.init, fun t => .node ⟨t, false, false⟩ [], []⟩
      ([] : Forest (Job Nat)) := ⟨RunLoop.init_represents, by simp⟩
  have hqueue : Holds (start (start ⟨Loop.init, fun t => .node ⟨t, false, false⟩ [], []⟩ first)
      second) [first, second] :=
    (hnone.start (o := first) (by decide)).start (o := second) (by decide)
  obtain ⟨t, hrun, hcompleted, -, hhead, htail⟩ :=
    runSome_levelOrder hqueue (by decide)
      (show (Forest.preorder [first, second]).length < 6 by decide)
  exact ⟨t, hrun, hcompleted, hhead, htail⟩

/-- The same tasks, as events of the queue machine. -/
theorem runSome_run_self :
    let first : RoseTree (Job Nat) :=
      .node ⟨3, false, false⟩ [.node ⟨3, true, false⟩ [], .node ⟨5, false, false⟩ []]
    let second : RoseTree (Job Nat) := .node ⟨4, false, true⟩ [.node ⟨6, false, false⟩ []]
    let s : State Nat := ⟨Loop.init, fun t => .node ⟨t, false, false⟩ [], []⟩
    ∃ b t es c, (RunLoop.machine Nat Unit).run RunLoop.State.init
        [.start 3 true, .start 4 true] = some b ∧
      runSome 6 (start (start s first) second) = some t ∧
      (RunLoop.machine Nat Unit).run b es = some c ∧ InStep c t [] := by
  intro first second s
  have hnone : Holds s ([] : Forest (Job Nat)) := ⟨RunLoop.init_represents, by simp⟩
  have hqueue : Holds (start (start s first) second) [first, second] :=
    (hnone.start (o := first) (by decide)).start (o := second) (by decide)
  have hinit : InStep RunLoop.State.init s [] := ⟨rfl, rfl, rfl, rfl⟩
  obtain ⟨b, hstarts, hb⟩ := hinit.startAll (G := [first, second]) (by decide)
  obtain ⟨t, hreturns, -, es, c, hes, hc⟩ := runSome_run hqueue (by decide) hb
  exact ⟨b, t, es, c, hstarts, hreturns 6 (by decide), hes, hc⟩

end Reentrancy
end DocaStdexec
