import DocaStdexec.Lib.Potential
import DocaStdexec.ProgressEngine.EventLoop

/-!
# `join` after `finish`

`~doca_pe_context` calls `finish` and waits for the loop thread.  The loop reads `stop_`
only between two rounds, so it first executes the queue and whatever this starts, and the
callbacks that it finds completed; operations that DOCA has not completed do not keep it.

`returns_after_finish` bounds the steps that the loop thread makes from then on, however
much other threads start meanwhile, and says what can keep it from returning: a task that
is started again too early, and a `pe.progress()` that never returns 0.
-/

namespace DocaStdexec
namespace EventLoop

open Lib
open Shutdown (Pc)

variable {τ ω : Type*} [DecidableEq τ] {s t : State τ ω}

/-- 1 for a step of the loop thread. -/
def loopCost (ev : Event τ ω) : Nat := if ev.OnLoop then 1 else 0

/-- How many steps the loop thread makes. -/
def loopSteps (es : List (Event τ ω)) : Nat := (es.map loopCost).sum

/-- How many changes of `pc` are left once `stop_` is set. -/
def rounds : Pc → Nat
  | .runSome => 3
  | .progress => 2
  | .check => 1
  | .returned => 0

/-- What a step costs is paid from the work, from the rounds, or by what is started, unless
it is a poll that returns another number than 0. -/
def Paid (s : State τ ω) (ev : Event τ ω) (t : State τ ω) : Prop :=
  loopCost ev + (todo t + rounds t.pc + 3 * s.started.preorder.length) ≤
    todo s + rounds s.pc + 3 * t.started.preorder.length + busy ev

omit [DecidableEq τ] in
theorem paid_of_todo_lt {ev : Event τ ω} (hloop : ev.OnLoop) (hless : todo t < todo s)
    (hpc : t.pc = s.pc) (hstarted : t.started = s.started) : Paid s ev t := by
  rw [Paid, loopCost, if_pos hloop, hpc, hstarted]
  omega

omit [DecidableEq τ] in
theorem paid_of_rounds_lt {ev : Event τ ω} (hloop : ev.OnLoop) (htodo : todo t = todo s)
    (hless : rounds t.pc < rounds s.pc) (hstarted : t.started = s.started) : Paid s ev t := by
  rw [Paid, loopCost, if_pos hloop, htodo, hstarted]
  omega

/-- What another thread starts takes three steps for each node. -/
theorem Inv.paid_start (h : Inv s) {o : Work τ ω}
    (h' : Inv (EventLoop.start { s with started := s.started ++ [o] } o)) :
    Paid s (.start o) (EventLoop.start { s with started := s.started ++ [o] } o) := by
  obtain ⟨-, hpc, -, -⟩ := start_frame { s with started := s.started ++ [o] } o
  have hbegun : 3 * s.log.length + begun s + 1 ≤ _ :=
    begun_start { s with started := s.started ++ [o] } o
  have hs := h.log_add_nodes
  have ht := h'.log_add_nodes
  have hbs := todo_add_begun s
  have hbt := todo_add_begun (EventLoop.start { s with started := s.started ++ [o] } o)
  rw [Paid, loopCost, if_neg (show ¬Event.OnLoop (.start o) from id), hpc]
  dsimp only
  omega

/-- Once `stop_` is set, a step of the loop thread does a part of the work, changes `pc` for
the last time, or is a poll that returns another number than 0. -/
theorem Inv.paid (h : Inv s) (hstop : s.stop_ = true) {ev : Event τ ω}
    (hstep : EventLoop.step s ev = some t) : t.stop_ = true ∧ Paid s ev t := by
  have h' := h.step hstep
  cases step_effect hstep with
  | start o hfree hatOnce =>
      obtain ⟨-, -, hsame, -⟩ := start_frame { s with started := s.started ++ [o] } o
      exact ⟨hsame.trans hstop, h.paid_start h'⟩
  | finish => exact ⟨rfl, (Nat.zero_add _).le⟩
  | readStop hpc =>
      refine ⟨hstop, paid_of_rounds_lt trivial rfl ?_ rfl⟩
      rw [hstop, hpc]
      exact Nat.zero_lt_one
  | idle loop hpc hhand hrunning hpop =>
      refine ⟨hstop, paid_of_rounds_lt trivial rfl ?_ rfl⟩
      rw [hpc]
      exact Nat.lt_succ_self 2
  | polled n hpc hrunning =>
      refine ⟨hstop, ?_⟩
      by_cases hn : n = 0
      · refine paid_of_rounds_lt trivial rfl ?_ rfl
        rw [hpc, if_pos hn]
        exact Nat.lt_succ_self 1
      · have hsame : (if n = 0 then Pc.check else .progress) = s.pc := by rw [if_neg hn, hpc]
        have hcost : loopCost (.progress n : Event τ ω) = 1 := if_pos trivial
        have hgift : busy (.progress n : Event τ ω) = 1 := if_neg hn
        rw [hsame, Paid, hcost, hgift]
        exact (Nat.add_comm 1 _).le
  | popped u loop hpc hhand hrunning hpop =>
      refine ⟨hstop, paid_of_todo_lt trivial (h.todo_lt h' rfl ?_) rfl rfl⟩
      simp only [begun, hhand, List.length_tail, Option.toList_none, Option.toList_some,
        List.length_cons, List.length_nil]
      omega
  | execute u hhand =>
      refine ⟨hstop, paid_of_todo_lt trivial (h.todo_lt h' rfl ?_) rfl rfl⟩
      simp only [begun, hhand, List.length_append, Option.toList_none, Option.toList_some,
        List.length_cons, List.length_nil]
      omega
  | startNext o rest hrunning hfree =>
      obtain ⟨-, hpc, hsame, hstarted⟩ := start_frame { s with running := rest } o
      exact ⟨hsame.trans hstop, paid_of_todo_lt trivial
        (h.todo_lt h' hstarted (begun_start { s with running := rest } o)) hpc hstarted⟩
  | completed i o hpc hrunning ho =>
      refine ⟨hstop, paid_of_todo_lt trivial (h.todo_lt h' rfl ?_) rfl rfl⟩
      obtain ⟨hi, hget⟩ := List.getElem?_eq_some_iff.mp ho
      have herase := List.length_eraseIdx_add_one hi
      simp only [begun, List.length_append, List.length_singleton]
      omega

theorem rounds_le (pc : Pc) : rounds pc ≤ 3 := by
  cases pc <;> decide

end EventLoop
end DocaStdexec
