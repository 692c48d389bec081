import DocaStdexec.Lib.Machine
import Mathlib.Algebra.GroupWithZero.Nat

/-!
# Costs and potentials

What the steps of a run cost together is bounded by the potential that the run starts with
and by the credit that comes in on the way.  `Φ` is the potential of a state, and `Ψ` counts
the credit that has come in; a step may also have a `gift` of its own.
-/

namespace DocaStdexec
namespace Lib
namespace Machine

variable {σ ε : Type*} {m : Machine σ ε}

/-- Each step is paid from the potential, from new credit or from its gift, and so is the
run. -/
theorem sum_cost_le {I : σ → Prop} {cost gift : ε → Nat} {Φ Ψ : σ → Nat}
    (hpaid : ∀ s e t, I s → m.step s e = some t →
      I t ∧ cost e + (Φ t + Ψ s) ≤ Φ s + Ψ t + gift e)
    {s t : σ} {es : List ε} (hs : I s) (hrun : m.run s es = some t) :
    (es.map cost).sum + (Φ t + Ψ s) ≤ Φ s + Ψ t + (es.map gift).sum := by
  induction es generalizing s with
  | nil =>
      obtain rfl : s = t := by simpa using hrun
      simp
  | cons e es ih =>
      obtain ⟨u, hstep, hrest⟩ := Option.bind_eq_some_iff.mp hrun
      obtain ⟨hu, hfirst⟩ := hpaid s e u hs hstep
      have hlater := ih hu hrest
      rw [List.map_cons, List.sum_cons, List.map_cons, List.sum_cons]
      omega

end Machine
end Lib
end DocaStdexec
