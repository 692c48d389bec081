import DocaStdexec.Common.CheckError
import DocaStdexec.Lib.Machine
import DocaStdexec.Lib.Trace

/-!
# The connection operation

`rdma_connection_sender::_operation` has three places that complete its
receiver: `start` itself, `on_established` and `on_failure`.  The last two are
entered through `connection_on_established` and `connection_on_failure`, which
DOCA calls from the progress engine after `doca_rdma_connect` was accepted.

The machine logs what happens to one operation; `ExactlyOnce` is the law that a
completion contract asks of such a log.
-/

namespace DocaStdexec
namespace ConnectionSender

open Lib

/-- `RdmaConnection`: the `unique_ptr` to the native connection and the
`shared_ptr` to its `Rdma`. -/
structure RdmaConnection (κ ρ : Type*) where
  connection : Option κ
  rdma : Option ρ

/-- What the defaulted move leaves behind. -/
def RdmaConnection.moved {κ ρ : Type*} : RdmaConnection κ ρ := ⟨none, none⟩

/-- What the receiver is sent. -/
inductive Signal (κ ρ : Type*)
  | setValue (connection : RdmaConnection κ ρ)
  | setError (err : DocaError)

inductive Entry (κ ρ : Type*)
  /-- DOCA established the connection and calls `connection_on_established`. -/
  | established
  /-- DOCA failed to connect and calls `connection_on_failure`. -/
  | failed
  /-- A callback reads the operation through `connection_data.ptr`. -/
  | touch
  | signal (s : Signal κ ρ)

/-- How far `start` got. -/
inductive Phase
  | connected
  | started
  | exited
  deriving DecidableEq

/-- The `_operation`, whether DOCA has delivered its one callback, and the log. -/
structure State (κ ρ : Type*) where
  connection : RdmaConnection κ ρ
  phase : Phase
  delivered : Bool
  log : List (Entry κ ρ)

inductive Event
  /-- `start`, with what `doca_rdma_connection_set_user_data` and
  `doca_rdma_connect` return. -/
  | start (setUserData connect : DocaError)
  | established
  | failure
  deriving DecidableEq

variable {κ ρ : Type*}

/-- The operation made by `rdma_connection_sender::connect`. -/
def State.init (connection : RdmaConnection κ ρ) : State κ ρ :=
  ⟨connection, .connected, false, []⟩

/-- `receiver.set_value(std::move(connection))`. -/
def State.setValue (s : State κ ρ) : State κ ρ :=
  { s with
    connection := .moved
    log := s.log ++ [.signal (.setValue s.connection)] }

/-- `receiver.set_error(err)`. -/
def State.setError (s : State κ ρ) (err : DocaError) : State κ ρ :=
  { s with log := s.log ++ [.signal (.setError err)] }

/-- `_operation::start`: both DOCA calls go through `check_error`. -/
def State.start (s : State κ ρ) (setUserData connect : DocaError) : State κ ρ :=
  if checkError setUserData then
    if checkError connect then { s.setValue with phase := .started }
    else { s with phase := .exited }
  else { s with phase := .exited }

/-- `connection_on_established`, which reads `request_cb` and calls
`on_established` through it. -/
def State.onEstablished (s : State κ ρ) : State κ ρ :=
  ({ s with log := s.log ++ [.established, .touch], delivered := true } : State κ ρ).setValue

/-- `connection_on_failure`, which reads `failure_cb` and calls `on_failure`
through it. -/
def State.onFailure (s : State κ ρ) : State κ ρ :=
  ({ s with log := s.log ++ [.failed, .touch], delivered := true } : State κ ρ).setError .unknown

/-- `start` runs once, and DOCA delivers at most one callback for a connection
whose `doca_rdma_connect` was accepted. -/
def step (s : State κ ρ) : Event → Option (State κ ρ)
  | .start setUserData connect =>
      if s.phase = .connected then some (s.start setUserData connect) else none
  | .established =>
      if s.phase = .started ∧ s.delivered = false then some s.onEstablished else none
  | .failure =>
      if s.phase = .started ∧ s.delivered = false then some s.onFailure else none

/-- One operation made from `connection`. -/
def machine (connection : RdmaConnection κ ρ) : Machine (State κ ρ) Event :=
  ⟨State.init connection, step⟩

def Entry.isSignal : Entry κ ρ → Bool
  | .signal _ => true
  | _ => false

/-- The completion contract, for the operation on the native connection `c`. -/
structure ExactlyOnce (c : κ) (log : List (Entry κ ρ)) : Prop where
  /-- At most one completion signal. -/
  once : log.countP Entry.isSignal ≤ 1
  /-- A value only after the connection was established, and with the
  connection in it. -/
  value : Justified (fun pre x => ∀ connection, x = .signal (.setValue connection) →
    .established ∈ pre ∧ connection.connection = some c) log
  /-- An error when and only when the failure callback ran. -/
  error_iff : (∃ err, Entry.signal (.setError err) ∈ log) ↔ Entry.failed ∈ log
  /-- No callback reads the operation after its receiver was completed. -/
  untouched : Justified (fun pre x => x = .touch → pre.countP Entry.isSignal = 0) log

/-! ## What a run can log -/

/-- The log of an operation whose `start` went through. -/
def startedLog (connection : RdmaConnection κ ρ) : List Event → List (Entry κ ρ)
  | [] => [.signal (.setValue connection)]
  | .failure :: _ =>
      [.signal (.setValue connection), .failed, .touch, .signal (.setError .unknown)]
  | _ :: _ =>
      [.signal (.setValue connection), .established, .touch, .signal (.setValue .moved)]

theorem step_of_exited {s : State κ ρ} (hs : s.phase = .exited) (e : Event) : step s e = none := by
  cases e <;> simp [step, hs]

theorem step_of_delivered {s : State κ ρ} (hs : s.phase = .started) (hd : s.delivered = true)
    (e : Event) : step s e = none := by
  cases e <;> simp [step, hs, hd]

/-- After a refused `start` the process is gone and nothing is logged. -/
theorem log_of_refused {connection : RdmaConnection κ ρ} {setUserData connect : DocaError}
    {es : List Event} {s : State κ ρ}
    (hrun : (machine connection).run (State.init connection) (.start setUserData connect :: es) =
      some s)
    (hrefused : setUserData ≠ .success ∨ connect ≠ .success) : s.log = [] := by
  have hstart : (State.init connection).start setUserData connect =
      { State.init connection with phase := .exited } := by
    by_cases hdata : setUserData = .success
    · simp [State.start, hdata, hrefused.resolve_left (not_not.mpr hdata)]
    · simp [State.start, hdata]
  simp only [Machine.run_cons, machine, step, State.init, if_true, Option.bind_some] at hrun
  cases es with
  | nil =>
      obtain rfl := Option.some.inj hrun
      exact congrArg State.log hstart
  | cons e es =>
      change (step ((State.init connection).start setUserData connect) e).bind _ = _ at hrun
      rw [hstart, step_of_exited rfl] at hrun
      simp at hrun

/-- After an accepted `start` the log is the value sent by `start` itself,
followed by what the one callback did. -/
theorem log_of_accepted {connection : RdmaConnection κ ρ} {es : List Event} {s : State κ ρ}
    (hrun : (machine connection).run (State.init connection) (.start .success .success :: es) =
      some s) : s.log = startedLog connection es := by
  cases es with
  | nil =>
      obtain rfl := Option.some.inj hrun
      rfl
  | cons e es =>
      have hlast (u : State κ ρ) (hu : u.phase = .started) (hd : u.delivered = true)
          (hrest : (machine connection).run u es = some s) : s = u := by
        cases es with
        | nil => exact (Option.some.inj hrest).symm
        | cons f es => simp [machine, step_of_delivered hu hd] at hrest
      cases e with
      | start a b => simp [machine, step, State.init, State.start, State.setValue] at hrun
      | established => rw [hlast _ rfl rfl hrun]; rfl
      | failure => rw [hlast _ rfl rfl hrun]; rfl

/-- The value that `start` sends comes before the connection is established. -/
theorem not_exactlyOnce_startedLog (c : κ) (connection : RdmaConnection κ ρ) (es : List Event) :
    ¬ ExactlyOnce c (startedLog connection es) := by
  intro h
  have hfirst : ∃ rest, startedLog connection es = .signal (.setValue connection) :: rest := by
    unfold startedLog
    split <;> exact ⟨_, rfl⟩
  obtain ⟨rest, hlog⟩ := hfirst
  have hearly := (h.value [] _ rest hlog connection rfl).1
  simp at hearly

/-- The completion contract holds exactly when DOCA refuses one of the two
calls of `start`, which ends the process. -/
theorem connection_exactlyOnce_iff (connection : RdmaConnection κ ρ) (c : κ)
    (setUserData connect : DocaError) (es : List Event) (s : State κ ρ)
    (hrun : (machine connection).run (State.init connection) (.start setUserData connect :: es) =
      some s) :
    ExactlyOnce c s.log ↔ setUserData ≠ .success ∨ connect ≠ .success := by
  constructor
  · intro h
    by_contra hgood
    obtain ⟨rfl, rfl⟩ : setUserData = .success ∧ connect = .success := by
      simpa [not_or] using hgood
    exact not_exactlyOnce_startedLog c connection es (log_of_accepted hrun ▸ h)
  · intro hrefused
    rw [log_of_refused hrun hrefused]
    exact ⟨by simp, Justified.nil, by simp, Justified.nil⟩

/-- With both calls accepted and the connection then established, the receiver
gets two values: the first before the connection exists, the second without it,
sent through an operation that had already completed. -/
theorem connection_completes_twice :
    ∃ s : State Nat Nat,
      (machine ⟨some 5, some 1⟩).run (State.init ⟨some 5, some 1⟩)
        [.start .success .success, .established] = some s ∧
      s.log = [.signal (.setValue ⟨some 5, some 1⟩), .established, .touch,
        .signal (.setValue ⟨none, none⟩)] ∧
      ¬ ExactlyOnce 5 s.log :=
  ⟨_, rfl, rfl, not_exactlyOnce_startedLog 5 ⟨some 5, some 1⟩ [.established]⟩

/-- A refused `doca_rdma_connect`: the process ends before any completion. -/
theorem connection_exactlyOnce_of_refused :
    ∃ s : State Nat Nat,
      (machine ⟨some 5, some 1⟩).run (State.init ⟨some 5, some 1⟩)
        [.start .success .unknown] = some s ∧
      ExactlyOnce 5 s.log :=
  ⟨_, rfl, (connection_exactlyOnce_iff ⟨some 5, some 1⟩ 5 .success .unknown [] _ rfl).mpr
    (.inr (by decide))⟩

end ConnectionSender
end DocaStdexec
