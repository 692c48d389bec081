import DocaStdexec.Common.CheckError
import DocaStdexec.Lib.Machine
import DocaStdexec.Lib.Trace

/-!
# Who frees a DOCA task

One raw task passes through several wrapper objects: the local of
`rdma_sender::connect`, the parameter and the member of `rdma_operation`, and a
temporary that each completion callback wraps around the same raw pointer.  The
three task types differ in what a move and a destructor leave behind:
`RdmaWriteTask` and `RdmaSendTask` hold a `std::unique_ptr` and have a defaulted
move constructor; `RdmaReadTask` holds a raw pointer and declares a destructor,
so it has no move constructor and is copied instead.

The machine logs every `doca_task_*` call on the raw task, from allocation to
the end of the operation or of the process.
-/

namespace DocaStdexec
namespace Task

open Lib

/-- The special members of a task wrapper.  A wrapper object holds a raw task
pointer or nothing; its destructor frees what it holds. -/
structure TaskType (α : Type*) where
  /-- The text of the exception that `allocate` throws. -/
  allocateError : String
  /-- What an object holds after another was constructed from `std::move` of it. -/
  moveLeaves : Option α → Option α
  /-- What an object holds after its destructor ran. -/
  destroyLeaves : Option α → Option α

variable {α : Type*}

/-- A wrapper around a `std::unique_ptr` with a defaulted move constructor. -/
def uniquePtrTask (allocateError : String) : TaskType α :=
  ⟨allocateError, fun _ => none, fun _ => none⟩

def rdmaWriteTask : TaskType α := uniquePtrTask "Failed to allocate write task"

def rdmaSendTask : TaskType α := uniquePtrTask "Failed to allocate send task"

/-- The raw pointer is copied by a "move" and stays behind in the destructor. -/
def rdmaReadTask : TaskType α := ⟨"Failed to allocate read task", id, id⟩

/-- The task types for which `Rdma::set_conf` registers callbacks. -/
inductive Kind
  | write
  | read
  | send
  deriving DecidableEq

def Kind.taskType : Kind → TaskType α
  | .write => rdmaWriteTask
  | .read => rdmaReadTask
  | .send => rdmaSendTask

/-- The calls that the operation makes on its raw task. -/
inductive Call
  | setUserData
  | submit
  | getStatus
  | free
  deriving DecidableEq

inductive Entry (α : Type*)
  | allocated (task : α)
  | thrown (what : String)
  | call (f : Call) (task : α)
  /-- DOCA enters one of the two completion callbacks. -/
  | callback
  | setValue
  | setError (err : DocaError)
  /-- The operation has been destroyed. -/
  | destroyed

inductive Phase
  | initial
  | thrown
  | ready
  | submitted
  | completed
  | destroyed
  | exited
  deriving DecidableEq

/-- The operation's member `task`, how far the run is, and the log. -/
structure State (α : Type*) where
  phase : Phase
  task : Option α
  log : List (Entry α)

inductive Event
  /-- `rdma_sender::connect`, with the status of the `allocate_init` call. -/
  | connect (status : DocaError)
  /-- `start`, with the status of `doca_task_submit`. -/
  | start (status : DocaError)
  /-- The success callback; `inside` says that the receiver destroys the
  operation before `set_value` returns. -/
  | success (inside : Bool)
  /-- The error callback, with the task's status. -/
  | error (status : DocaError) (inside : Bool)
  /-- The operation is destroyed from outside a callback. -/
  | destroy
  deriving DecidableEq

def State.init : State α := ⟨.initial, none, []⟩

def State.record (s : State α) (entries : List (Entry α)) : State α :=
  { s with log := s.log ++ entries }

/-- The `doca_task_free` of a wrapper's destructor. -/
def freeTask (wrapper : Option α) : List (Entry α) :=
  wrapper.toList.map (.call .free)

section Operation

variable (T : TaskType α) (raw : α)

/-- `rdma_sender::connect`: the local `task` is moved into the parameter of
`rdma_operation`, which is moved into its member; the parameter and then the
local are destroyed. -/
def State.connect (s : State α) (status : DocaError) : State α :=
  if status = .success then
    let local_ := some raw
    -- two move constructions, each followed by what it leaves behind
    let param := local_
    let local_ := T.moveLeaves local_
    let member := param
    let param := T.moveLeaves param
    { s.record ([.allocated raw] ++ freeTask param ++ freeTask local_) with
      phase := .ready
      task := member }
  else { s.record [.thrown T.allocateError] with phase := .thrown }

/-- `rdma_operation::start`. -/
def State.start (s : State α) (status : DocaError) : State α :=
  let s := s.record (s.task.toList.flatMap fun task =>
    [.call .setUserData task, .call .submit task])
  { s with phase := if checkError status then .submitted else .exited }

/-- The destructor of `rdma_operation`. -/
def State.destroy (s : State α) : State α :=
  { s.record (freeTask s.task ++ [.destroyed]) with
    phase := .destroyed
    task := T.destroyLeaves s.task }

/-- What the receiver does with the operation when it is completed. -/
def State.receive (s : State α) (inside : Bool) : State α :=
  if inside then s.destroy T else { s with phase := .completed }

/-- `rdma_operation_set_value`: the temporary is destroyed explicitly before the
receiver is completed, and again at the end of the function. -/
def State.setValue (s : State α) (inside : Bool) : State α :=
  let task := some raw
  let s := s.record ([.callback] ++ freeTask task)
  let task := T.destroyLeaves task
  let s := (s.record [.setValue]).receive T inside
  s.record (freeTask task)

/-- `rdma_operation_set_error`: `set_error` completes the receiver and then
calls `check_error`, so the temporary is destroyed only for a successful
status. -/
def State.setError (s : State α) (status : DocaError) (inside : Bool) : State α :=
  let task := some raw
  let s := s.record [.callback, .call .getStatus raw]
  let s := (s.record [.setError status]).receive T inside
  -- `exit` runs no destructor of a local
  if checkError status then s.record (freeTask task) else { s with phase := .exited }

/-- An operation is started at most once, DOCA calls one callback for a
submitted task, and the operation is not destroyed while its task is pending. -/
def step (s : State α) : Event → Option (State α)
  | .connect status => if s.phase = .initial then some (s.connect T raw status) else none
  | .start status => if s.phase = .ready then some (s.start status) else none
  | .success inside => if s.phase = .submitted then some (s.setValue T raw inside) else none
  | .error status inside =>
      if s.phase = .submitted then some (s.setError T raw status inside) else none
  | .destroy =>
      if s.phase = .ready ∨ s.phase = .completed then some (s.destroy T) else none

def machine : Machine (State α) Event := ⟨State.init, step T raw⟩

end Operation

/-- The run is over: no task, no operation or no process is left. -/
def State.Complete (s : State α) : Prop :=
  s.phase = .thrown ∨ s.phase = .destroyed ∨ s.phase = .exited

def Entry.isFree : Entry α → Bool
  | .call .free _ => true
  | _ => false

def Entry.isCall : Entry α → Bool
  | .call _ _ => true
  | _ => false

/-- The ownership law for the task of one operation. -/
@[mk_iff]
structure FreedOnce (raw : α) (log : List (Entry α)) : Prop where
  /-- Freed exactly once by the time the operation is destroyed. -/
  once : .destroyed ∈ log → log.countP Entry.isFree = 1
  /-- A submitted task is not freed before its callback is entered. -/
  pending : .call .submit raw ∈ log →
    Justified (fun pre x => x.isFree → .callback ∈ pre) log
  /-- No call on the task after it was freed, a second free included. -/
  noUse : Justified (fun pre x => x.isCall → pre.countP Entry.isFree = 0) log

/-! ## The complete runs -/

/-- The event sequences of complete runs. -/
inductive CompleteRun : List Event → Prop
  | thrown (status : DocaError) (hstatus : status ≠ .success) :
      CompleteRun [.connect status]
  | unstarted : CompleteRun [.connect .success, .destroy]
  | refused (status : DocaError) (hstatus : status ≠ .success) :
      CompleteRun [.connect .success, .start status]
  | successInside : CompleteRun [.connect .success, .start .success, .success true]
  | successLater : CompleteRun [.connect .success, .start .success, .success false, .destroy]
  | failed (status : DocaError) (inside : Bool) (hstatus : status ≠ .success) :
      CompleteRun [.connect .success, .start .success, .error status inside]
  | errorInside : CompleteRun [.connect .success, .start .success, .error .success true]
  | errorLater :
      CompleteRun [.connect .success, .start .success, .error .success false, .destroy]

section Runs

variable {T : TaskType α} {raw : α} {s t : State α} {es : List Event}

theorem run_of_complete (hs : s.Complete) (hrun : (machine T raw).run s es = some t) :
    es = [] := by
  cases es with
  | nil => rfl
  | cons e es =>
      rcases hs with hs | hs | hs <;> cases e <;> simp [machine, step, hs] at hrun

theorem run_of_completed (hs : s.phase = .completed) (ht : t.Complete)
    (hrun : (machine T raw).run s es = some t) : es = [.destroy] := by
  cases es with
  | nil =>
      obtain rfl := Option.some.inj hrun
      simp [State.Complete, hs] at ht
  | cons e es =>
      cases e with
      | destroy =>
          replace hrun : (machine T raw).run (s.destroy T) es = some t := by
            simpa [machine, step, hs] using hrun
          rw [run_of_complete (.inr (.inl rfl)) hrun]
      | _ => simp [machine, step, hs] at hrun

theorem run_of_submitted (hs : s.phase = .submitted) (ht : t.Complete)
    (hrun : (machine T raw).run s es = some t) :
    es = [.success true] ∨ es = [.success false, .destroy] ∨
      (∃ status inside, status ≠ .success ∧ es = [.error status inside]) ∨
      es = [.error .success true] ∨ es = [.error .success false, .destroy] := by
  cases es with
  | nil =>
      obtain rfl := Option.some.inj hrun
      simp [State.Complete, hs] at ht
  | cons e es =>
      cases e with
      | success inside =>
          replace hrun : (machine T raw).run (s.setValue T raw inside) es = some t := by
            simpa [machine, step, hs] using hrun
          cases inside with
          | true => rw [run_of_complete (.inr (.inl rfl)) hrun]; simp
          | false => rw [run_of_completed rfl ht hrun]; simp
      | error status inside =>
          replace hrun : (machine T raw).run (s.setError T raw status inside) es = some t := by
            simpa [machine, step, hs] using hrun
          by_cases hstatus : status = .success
          · subst hstatus
            cases inside with
            | true => rw [run_of_complete (.inr (.inl rfl)) hrun]; simp
            | false => rw [run_of_completed rfl ht hrun]; simp
          · have hexit : (s.setError T raw status inside).phase = .exited := by
              simp [State.setError, hstatus]
            rw [run_of_complete (.inr (.inr hexit)) hrun]
            exact .inr (.inr (.inl ⟨status, inside, hstatus, rfl⟩))
      | _ => simp [machine, step, hs] at hrun

theorem completeRun_of_run (ht : t.Complete)
    (hrun : (machine T raw).run State.init es = some t) : CompleteRun es := by
  cases es with
  | nil =>
      obtain rfl := Option.some.inj hrun
      simp [State.Complete, State.init] at ht
  | cons e es =>
      cases e with
      | connect status =>
          replace hrun : (machine T raw).run (State.init.connect T raw status) es = some t := hrun
          by_cases hstatus : status = .success
          · subst hstatus
            cases es with
            | nil =>
                obtain rfl := Option.some.inj hrun
                simp [State.Complete, State.connect] at ht
            | cons e es =>
                cases e with
                | start status =>
                    replace hrun : (machine T raw).run
                        ((State.init.connect T raw .success).start status) es = some t := hrun
                    by_cases hstatus : status = .success
                    · subst hstatus
                      rcases run_of_submitted rfl ht hrun with
                        rfl | rfl | ⟨status, inside, hstatus, rfl⟩ | rfl | rfl
                      · exact .successInside
                      · exact .successLater
                      · exact .failed status inside hstatus
                      · exact .errorInside
                      · exact .errorLater
                    · rw [run_of_complete (.inr (.inr (by simp [State.start, hstatus]))) hrun]
                      exact .refused status hstatus
                | destroy =>
                    replace hrun : (machine T raw).run
                        ((State.init.connect T raw .success).destroy T) es = some t := hrun
                    rw [run_of_complete (.inr (.inl rfl)) hrun]
                    exact .unstarted
                | _ => simp [machine, step, State.connect] at hrun
          · rw [run_of_complete (.inl (by simp [State.connect, hstatus])) hrun]
            exact .thrown status hstatus
      | _ => simp [machine, step, State.init] at hrun

end Runs

/-! ## Which runs free the task exactly once -/

/-- No callback frees through its temporary: the allocation threw, or the task
type moves and neither the success callback nor an error callback for a
successful task ran. -/
def Clean (k : Kind) (es : List Event) : Prop :=
  (∃ status, status ≠ .success ∧ .connect status ∈ es) ∨
    (k ≠ .read ∧ ∀ inside, .success inside ∉ es ∧ .error .success inside ∉ es)

theorem step_log_grows {T : TaskType α} {raw : α} {s t : State α} {e : Event}
    (hstep : step T raw s e = some t) : s.log <+: t.log := by
  have hgrows (entries : List (Entry α)) : s.log <+: s.log ++ entries := List.prefix_append _ _
  have hreceive (u : State α) (inside : Bool) : u.log <+: (u.receive T inside).log := by
    cases inside
    · exact List.prefix_rfl
    · exact List.prefix_append _ _
  cases e <;> simp only [step] at hstep <;> split at hstep <;>
    simp only [Option.some.injEq, reduceCtorEq] at hstep <;> subst hstep
  case connect status _ =>
    unfold State.connect
    split <;> exact hgrows _
  case start status _ => exact hgrows _
  case success inside _ =>
    have hdone := (hreceive ((s.record ([.callback] ++ freeTask (some raw))).record [.setValue])
      inside).trans (List.prefix_append _ (freeTask (T.destroyLeaves (some raw))))
    exact (hgrows _).trans ((List.prefix_append _ _).trans hdone)
  case error status inside _ =>
    have hdone := hreceive ((s.record [.callback, .call .getStatus raw]).record [.setError status])
      inside
    unfold State.setError
    split
    · exact (hgrows _).trans ((List.prefix_append _ _).trans
        (hdone.trans (List.prefix_append _ _)))
    · exact (hgrows _).trans ((List.prefix_append _ _).trans hdone)
  case destroy _ => exact hgrows _

/-- The log of a run whose allocation succeeded starts with what `connect` did. -/
theorem log_of_connect {T : TaskType α} {raw : α} {es : List Event} {s : State α}
    (hrun : (machine T raw).run State.init (.connect .success :: es) = some s) :
    (State.init.connect T raw .success).log <+: s.log :=
  Machine.run_invariant (m := machine T raw) (s := State.init.connect T raw .success)
    (I := fun u => (State.init.connect T raw .success).log <+: u.log)
    (fun _ _ _ hu hstep => hu.trans (step_log_grows hstep)) List.prefix_rfl hrun

/-- A task that is freed again is not freed once. -/
theorem not_freedOnce_of_free_again {raw : α} {log pre post : List (Entry α)}
    (hfree : .call .free raw ∈ pre) (hlog : log = pre ++ .call .free raw :: post) :
    ¬ FreedOnce raw log := by
  intro h
  have hnone := List.countP_eq_zero.mp (h.noUse pre (.call .free raw) post hlog rfl)
  exact hnone _ hfree rfl

/-- An `RdmaReadTask` is freed twice before the operation exists: its copies in
`connect` are destroyed with the same pointer. -/
theorem not_freedOnce_read {raw : α} {es : List Event} {s : State α}
    (hrun : (machine rdmaReadTask raw).run State.init (.connect .success :: es) = some s) :
    ¬ FreedOnce raw s.log := by
  obtain ⟨post, hlog⟩ := log_of_connect hrun
  have hagain : s.log = [.allocated raw, .call .free raw] ++ .call .free raw :: post := by
    rw [← hlog]
    rfl
  exact not_freedOnce_of_free_again (by simp) hagain

/-- For a task type that moves, the law is decided by the shape of the run: the
temporary of the success callback frees the task that the member still holds. -/
theorem freedOnce_uniquePtr_iff {err : String} {raw : α} {k : Kind} (hk : k ≠ .read)
    {es : List Event} {s : State α} (hes : CompleteRun es)
    (hrun : (machine (uniquePtrTask err) raw).run State.init es = some s) :
    FreedOnce raw s.log ↔ Clean k es := by
  cases hes with
  | thrown status hstatus =>
      have hlog : s.log = [.thrown err] := by
        obtain rfl := Option.some.inj hrun
        simp [State.connect, hstatus, State.record, State.init, uniquePtrTask]
      rw [hlog, freedOnce_iff]
      simp [Justified.cons_iff, Entry.isFree, Entry.isCall, Clean, hstatus]
  | unstarted =>
      have hlog : s.log = [.allocated raw, .call .free raw, .destroyed] := by
        obtain rfl := Option.some.inj hrun
        rfl
      rw [hlog, freedOnce_iff]
      simp [Justified.cons_iff, List.countP_cons, Entry.isFree, Entry.isCall, Clean, hk]
  | refused status hstatus =>
      have hlog : s.log = [.allocated raw, .call .setUserData raw, .call .submit raw] := by
        obtain rfl := Option.some.inj hrun
        rfl
      rw [hlog, freedOnce_iff]
      simp [Justified.cons_iff, Entry.isFree, Entry.isCall, Clean, hk]
  | successInside =>
      have hlog : s.log = ([.allocated raw, .call .setUserData raw, .call .submit raw, .callback,
          .call .free raw, .setValue] : List (Entry α)) ++ .call .free raw :: [.destroyed] := by
        obtain rfl := Option.some.inj hrun
        rfl
      exact iff_of_false (not_freedOnce_of_free_again (by simp) hlog) (by simp [Clean])
  | successLater =>
      have hlog : s.log = ([.allocated raw, .call .setUserData raw, .call .submit raw, .callback,
          .call .free raw, .setValue] : List (Entry α)) ++ .call .free raw :: [.destroyed] := by
        obtain rfl := Option.some.inj hrun
        rfl
      exact iff_of_false (not_freedOnce_of_free_again (by simp) hlog) (by simp [Clean])
  | failed status inside hstatus =>
      have hlog : s.log = ([.allocated raw, .call .setUserData raw, .call .submit raw, .callback,
          .call .getStatus raw, .setError status] : List (Entry α)) ++
            if inside then [.call .free raw, .destroyed] else [] := by
        obtain rfl := Option.some.inj hrun
        cases inside <;> simp [State.setError, hstatus] <;> rfl
      rw [hlog, freedOnce_iff]
      cases inside <;>
        simp [Justified.cons_iff, List.countP_cons, Entry.isFree, Entry.isCall, Clean, hk,
          hstatus.symm]
  | errorInside =>
      have hlog : s.log = ([.allocated raw, .call .setUserData raw, .call .submit raw, .callback,
          .call .getStatus raw, .setError .success, .call .free raw, .destroyed] :
            List (Entry α)) ++ .call .free raw :: [] := by
        obtain rfl := Option.some.inj hrun
        rfl
      exact iff_of_false (not_freedOnce_of_free_again (by simp) hlog) (by simp [Clean])
  | errorLater =>
      have hlog : s.log = ([.allocated raw, .call .setUserData raw, .call .submit raw, .callback,
          .call .getStatus raw, .setError .success, .call .free raw] : List (Entry α)) ++
            .call .free raw :: [.destroyed] := by
        obtain rfl := Option.some.inj hrun
        rfl
      exact iff_of_false (not_freedOnce_of_free_again (by simp) hlog) (by simp [Clean])

/-- The task of an operation is freed exactly once, in time and never used
afterwards, exactly in the runs in which no callback frees through its
temporary. -/
theorem task_freedOnce_iff (k : Kind) (raw : α) (es : List Event) (s : State α)
    (hrun : (machine k.taskType raw).run State.init es = some s) (hcomplete : s.Complete) :
    FreedOnce raw s.log ↔ Clean k es := by
  have hes := completeRun_of_run hcomplete hrun
  cases k with
  | write => exact freedOnce_uniquePtr_iff (by decide) hes hrun
  | send => exact freedOnce_uniquePtr_iff (by decide) hes hrun
  | read =>
      cases hes with
      | thrown status hstatus =>
          have hlog : s.log = [.thrown (rdmaReadTask : TaskType α).allocateError] := by
            obtain rfl := Option.some.inj hrun
            simp [State.connect, hstatus, State.record, State.init, Kind.taskType]
          rw [hlog, freedOnce_iff]
          simp [Justified.cons_iff, Entry.isFree, Entry.isCall, Clean, hstatus]
      | _ =>
          refine iff_of_false (not_freedOnce_read hrun) ?_
          simp [Clean]

/-- A completed write frees its task in the callback and again with the
operation. -/
theorem write_freed_twice :
    ∃ s : State Nat,
      (machine Kind.write.taskType 1).run State.init
        [.connect .success, .start .success, .success false, .destroy] = some s ∧
      s.log.countP Entry.isFree = 2 ∧ ¬ FreedOnce 1 s.log := by
  refine ⟨_, rfl, rfl, fun h => ?_⟩
  have honce := h.once (by simp [State.destroy, State.record])
  exact absurd honce (by decide)

/-- A send operation that is destroyed without being started. -/
theorem send_freedOnce_unstarted :
    ∃ s : State Nat,
      (machine Kind.send.taskType 1).run State.init [.connect .success, .destroy] = some s ∧
      FreedOnce 1 s.log :=
  ⟨_, rfl, (task_freedOnce_iff .send 1 [.connect .success, .destroy] _ rfl
    (.inr (.inl rfl))).mpr (.inr ⟨by decide, by simp⟩)⟩

end Task
end DocaStdexec
