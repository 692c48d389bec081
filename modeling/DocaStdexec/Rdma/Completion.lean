import DocaStdexec.Rdma.Task

/-!
# What the receiver of an RDMA operation hears

`rdma_sender` declares `set_value_t()` and `set_error_t(doca_error_t)`.  An
operation ends in one of three ways: its submit fails, or DOCA enters the success
callback or the error callback.  `outcome` is the signal that each of them owes to
the receiver.

The success callback pays.  `start` gives a failed submit to `check_error`, which
ends the process without a signal, and the error callback signals the receiver and
then ends the process in the same way.
-/

namespace DocaStdexec
namespace Task

open Lib

variable {α : Type*}

/-- A completion signal. -/
inductive Signal
  | value
  | error (err : DocaError)
  deriving DecidableEq

def Entry.signal : Entry α → Option Signal
  | .setValue => some .value
  | .setError err => some (.error err)
  | _ => none

/-- What the receiver has got. -/
def State.signals (s : State α) : List Signal := s.log.filterMap Entry.signal

/-- The signal that an event owes to the receiver. -/
def Event.outcome : Event → Option Signal
  | .start status => if status = .success then none else some (.error status)
  | .success _ => some .value
  | .error status _ => some (.error status)
  | .connect _ | .destroy => none

/-- What is owed to the receiver is all that it has got, and the process runs on. -/
def Reported (es : List Event) (s : State α) : Prop :=
  ∀ e ∈ es, ∀ signal, e.outcome = some signal → s.signals = [signal] ∧ s.phase ≠ .exited

/-- Every submit succeeds and no task fails. -/
def Faultless (es : List Event) : Prop :=
  ∀ e ∈ es, ∀ err, e.outcome ≠ some (.error err)

/-- The operation has nothing more to report. -/
def State.Over (s : State α) : Prop :=
  s.phase = .thrown ∨ s.phase = .completed ∨ s.phase = .destroyed ∨ s.phase = .exited

section Runs

variable {T : TaskType α} {raw : α} {s t : State α} {es : List Event}

theorem signals_record (s : State α) (entries : List (Entry α)) :
    (s.record entries).signals = s.signals ++ entries.filterMap Entry.signal := by
  simp [State.signals, State.record]

theorem filterMap_freeTask (wrapper : Option α) :
    (freeTask wrapper).filterMap Entry.signal = [] := by
  cases wrapper <;> rfl

theorem signals_destroy (s : State α) : (s.destroy T).signals = s.signals := by
  have hrecord := signals_record s (freeTask s.task ++ [.destroyed])
  rwa [List.filterMap_append, filterMap_freeTask, List.nil_append,
    show [Entry.destroyed].filterMap Entry.signal = [] from rfl, List.append_nil] at hrecord

theorem signals_receive (s : State α) (inside : Bool) :
    (s.receive T inside).signals = s.signals := by
  cases inside
  · rfl
  · exact signals_destroy s

theorem signals_setValue (s : State α) (inside : Bool) :
    (s.setValue T raw inside).signals = s.signals ++ [.value] := by
  simp only [State.setValue, signals_record, signals_receive, List.filterMap_append,
    filterMap_freeTask]
  simp [Entry.signal]

/-- Once an operation is over, only its destruction remains. -/
theorem run_of_over (hs : s.Over) (hrun : (machine T raw).run s es = some t) :
    t.signals = s.signals ∧ (t.phase = .exited ↔ s.phase = .exited) ∧
      ∀ e ∈ es, e.outcome = none := by
  induction es generalizing s with
  | nil =>
      obtain rfl := Option.some.inj hrun
      simp
  | cons e es ih =>
      obtain ⟨u, hstep, hrest⟩ := Option.bind_eq_some_iff.mp hrun
      obtain ⟨rfl, hphase, rfl⟩ : e = .destroy ∧ s.phase = .completed ∧ s.destroy T = u := by
        cases e with
        | destroy =>
            rcases hs with hs | hs | hs | hs <;> simp [machine, step, hs] at hstep
            exact ⟨rfl, hs, hstep⟩
        | _ => rcases hs with hs | hs | hs | hs <;> simp [machine, step, hs] at hstep
      obtain ⟨hsignals, hexit, hnone⟩ := ih (.inr (.inr (.inl rfl))) hrest
      refine ⟨hsignals.trans (signals_destroy s), ?_, ?_⟩
      · rw [hexit, hphase]
        simp [State.destroy]
      · exact List.forall_mem_cons.mpr ⟨rfl, hnone⟩

theorem reported_cons_of_none {e : Event} (he : e.outcome = none) :
    Reported (e :: es) t ↔ Reported es t := by
  simp [Reported, he]

theorem faultless_cons_of_none {e : Event} (he : e.outcome = none) :
    Faultless (e :: es) ↔ Faultless es := by
  simp [Faultless, he]

/-- A run in which nothing is owed to the receiver. -/
theorem reported_iff_of_none (hnone : ∀ e ∈ es, e.outcome = none) :
    Reported es t ↔ Faultless es :=
  iff_of_true (fun e he signal h => by simp [hnone e he] at h)
    fun e he err h => by simp [hnone e he] at h

/-- An error that ends the process. -/
theorem reported_iff_of_exited {e : Event} {err : DocaError}
    (he : e.outcome = some (.error err)) (ht : t.phase = .exited) :
    Reported (e :: es) t ↔ Faultless (e :: es) :=
  iff_of_false (fun h => (h e List.mem_cons_self _ he).2 ht)
    fun h => h e List.mem_cons_self err he

/-- A submitted task: only the success callback reports and lets the process go
on. -/
theorem reported_iff_of_submitted (hs : s.phase = .submitted) (hsignals : s.signals = [])
    (herror : ∀ status inside, .error status inside ∈ es → status ≠ .success)
    (hrun : (machine T raw).run s es = some t) : Reported es t ↔ Faultless es := by
  cases es with
  | nil => exact reported_iff_of_none (by simp)
  | cons e es =>
      cases e with
      | success inside =>
          replace hrun : (machine T raw).run (s.setValue T raw inside) es = some t := by
            simpa [machine, step, hs] using hrun
          have hover : (s.setValue T raw inside).Over := by
            cases inside with
            | true => exact .inr (.inr (.inl rfl))
            | false => exact .inr (.inl rfl)
          have hphase : (s.setValue T raw inside).phase ≠ .exited := by
            cases inside <;> simp [State.setValue, State.receive, State.record, State.destroy]
          obtain ⟨hlater, hexit, hnone⟩ := run_of_over hover hrun
          rw [signals_setValue, hsignals] at hlater
          refine iff_of_true ?_ ?_
          · refine List.forall_mem_cons.mpr ⟨fun signal hsignal => ?_, fun e he signal h => ?_⟩
            · obtain rfl := Option.some.inj hsignal
              exact ⟨hlater, fun ht => hphase (hexit.mp ht)⟩
            · simp [hnone e he] at h
          · refine List.forall_mem_cons.mpr ⟨by simp [Event.outcome], fun e he err h => ?_⟩
            simp [hnone e he] at h
      | error status inside =>
          replace hrun : (machine T raw).run (s.setError T raw status inside) es = some t := by
            simpa [machine, step, hs] using hrun
          have hstatus := herror status inside List.mem_cons_self
          have hphase : (s.setError T raw status inside).phase = .exited := by
            simp [State.setError, hstatus]
          obtain ⟨-, hexit, -⟩ := run_of_over (.inr (.inr (.inr hphase))) hrun
          exact reported_iff_of_exited rfl (hexit.mpr hphase)
      | _ => simp [machine, step, hs] at hrun

/-- An operation that has been connected. -/
theorem reported_iff_of_ready (hs : s.phase = .ready) (hsignals : s.signals = [])
    (herror : ∀ status inside, .error status inside ∈ es → status ≠ .success)
    (hrun : (machine T raw).run s es = some t) : Reported es t ↔ Faultless es := by
  cases es with
  | nil => exact reported_iff_of_none (by simp)
  | cons e es =>
      cases e with
      | start status =>
          replace hrun : (machine T raw).run (s.start status) es = some t := by
            simpa [machine, step, hs] using hrun
          by_cases hstatus : status = .success
          · have hnone : (Event.start status).outcome = none := by simp [Event.outcome, hstatus]
            have hstarted : (s.start status).signals = [] := by
              have hrecord := signals_record s (s.task.toList.flatMap fun task =>
                [.call .setUserData task, .call .submit task])
              rw [hsignals] at hrecord
              refine hrecord.trans ?_
              cases s.task <;> rfl
            rw [reported_cons_of_none hnone, faultless_cons_of_none hnone]
            exact reported_iff_of_submitted (by simp [State.start, hstatus]) hstarted
              (fun status inside h => herror status inside (List.mem_cons_of_mem _ h)) hrun
          · have hphase : (s.start status).phase = .exited := by simp [State.start, hstatus]
            obtain ⟨-, hexit, -⟩ := run_of_over (.inr (.inr (.inr hphase))) hrun
            exact reported_iff_of_exited (if_neg hstatus) (hexit.mpr hphase)
      | destroy =>
          replace hrun : (machine T raw).run (s.destroy T) es = some t := by
            simpa [machine, step, hs] using hrun
          obtain ⟨-, -, hnone⟩ := run_of_over (.inr (.inr (.inl rfl))) hrun
          exact reported_iff_of_none (List.forall_mem_cons.mpr ⟨rfl, hnone⟩)
      | _ => simp [machine, step, hs] at hrun

end Runs

/-- The receiver of an operation hears what it is owed, and goes on, exactly when
the submit succeeds and the task does not fail. -/
theorem reported_iff_faultless (k : Kind) (raw : α) {es : List Event} {t : State α}
    (hrun : (machine k.taskType raw).run State.init es = some t)
    (herror : ∀ status inside, .error status inside ∈ es → status ≠ .success) :
    Reported es t ↔ Faultless es := by
  cases es with
  | nil => exact reported_iff_of_none (by simp)
  | cons e es =>
      cases e with
      | connect status =>
          replace hrun :
              (machine k.taskType raw).run (State.init.connect k.taskType raw status) es = some t :=
            hrun
          have hnone : (Event.connect status).outcome = none := rfl
          rw [reported_cons_of_none hnone, faultless_cons_of_none hnone]
          by_cases hstatus : status = .success
          · subst hstatus
            have hconnected : (State.init.connect k.taskType raw .success).signals = [] := by
              cases k <;> rfl
            exact reported_iff_of_ready rfl hconnected
              (fun status inside h => herror status inside (List.mem_cons_of_mem _ h)) hrun
          · obtain ⟨-, -, hnone⟩ :=
              run_of_over (.inl (by simp [State.connect, hstatus])) hrun
            exact reported_iff_of_none hnone
      | _ => simp [machine, step, State.init] at hrun

theorem reported_iff_faultless_write :
    ∃ t : State Nat, (machine Kind.write.taskType 1).run State.init
        [.connect .success, .start .success, .success false, .destroy] = some t ∧
      Reported [.connect .success, .start .success, .success false, .destroy] t :=
  ⟨_, rfl, (reported_iff_faultless .write 1 rfl (by simp)).mpr
    (by simp [Faultless, Event.outcome])⟩

/-- A write whose task fails: the receiver hears of it and the process ends. -/
theorem not_reported_error :
    ∃ t : State Nat, (machine Kind.write.taskType 1).run State.init
        [.connect .success, .start .success, .error .unknown false] = some t ∧
      ¬Reported [.connect .success, .start .success, .error .unknown false] t :=
  ⟨_, rfl, fun h => (h (.error .unknown false) (by simp) _ rfl).2 (by decide)⟩

end Task
end DocaStdexec
