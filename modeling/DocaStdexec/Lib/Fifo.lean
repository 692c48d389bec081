import DocaStdexec.Lib.Machine

/-!
# The abstract FIFO queue

The specification machine of a first-in first-out queue: a list of contents and
the two histories, what has been pushed and what has been popped.  Popping an
empty queue is possible and changes nothing.  `Reachable.conservation` is the
whole meaning of "first in, first out": nothing is lost, duplicated or
reordered.
-/

namespace DocaStdexec
namespace Lib

/-- A queue with its push and pop histories. -/
structure Fifo (τ : Type*) where
  contents : List τ
  pushed : List τ
  popped : List τ

namespace Fifo

variable {τ : Type*}

inductive Event (τ : Type*)
  | push (t : τ)
  | pop

/-- The queue before any event. -/
def empty : Fifo τ := ⟨[], [], []⟩

def step (q : Fifo τ) : Event τ → Option (Fifo τ)
  | .push t => some { q with contents := q.contents ++ [t], pushed := q.pushed ++ [t] }
  | .pop =>
      match q.contents with
      | [] => some q
      | t :: rest => some { q with contents := rest, popped := q.popped ++ [t] }

def machine (τ : Type*) : Machine (Fifo τ) (Event τ) := ⟨empty, step⟩

theorem step_conservation {q r : Fifo τ} {e : Event τ}
    (hq : q.pushed = q.popped ++ q.contents) (hstep : q.step e = some r) :
    r.pushed = r.popped ++ r.contents := by
  cases e with
  | push t =>
      obtain rfl := Option.some.inj hstep
      simp [hq]
  | pop =>
      cases hcontents : q.contents with
      | nil =>
          obtain rfl : q = r := by simpa [step, hcontents] using hstep
          exact hq
      | cons t rest =>
          obtain rfl : { q with contents := rest, popped := q.popped ++ [t] } = r := by
            simpa [step, hcontents] using hstep
          simp [hq, hcontents]

/-- The pushes are the pops followed by what is still queued. -/
theorem conservation {q : Fifo τ} (hq : (machine τ).Reachable q) :
    q.pushed = q.popped ++ q.contents :=
  hq.invariant (I := fun q => q.pushed = q.popped ++ q.contents) rfl
    fun _ _ _ hq hstep => step_conservation hq hstep

/-- What has been popped is always a prefix of what has been pushed. -/
theorem popped_prefix_pushed {q : Fifo τ} (hq : (machine τ).Reachable q) :
    q.popped <+: q.pushed :=
  ⟨q.contents, (conservation hq).symm⟩

end Fifo
end Lib
end DocaStdexec
