import Mathlib.Data.List.Infix
import Mathlib.Order.Basic

/-!
# Labelled machines and their runs

A `Machine` is a deterministic partial transition function over labels.  Every
choice that a scheduler, a kernel or a caller makes is part of the label, so a
system with many interleavings is one machine and an interleaving is one list
of labels.  `step s e = none` means that `e` cannot happen in `s`.

The rules proved here are the ones a safety argument needs: runs compose, an
invariant of one step is an invariant of every run, the same under a condition
on the steps taken, and a simulation carries reachability from one machine to
another.
-/

namespace DocaStdexec
namespace Lib

/-- A labelled machine with one initial state. -/
structure Machine (σ ε : Type*) where
  /-- The state before the first event. -/
  init : σ
  /-- The effect of one event, or `none` when the event is not possible. -/
  step : σ → ε → Option σ

namespace Machine

variable {σ ε σ' ε' : Type*} (m : Machine σ ε)

/-- Execute a list of events in order; `none` when one of them is not
possible where it stands. -/
def run (s : σ) : List ε → Option σ
  | [] => some s
  | e :: es => (m.step s e).bind fun t => run t es

@[simp] theorem run_nil (s : σ) : m.run s [] = some s := rfl

@[simp] theorem run_cons (s : σ) (e : ε) (es : List ε) :
    m.run s (e :: es) = (m.step s e).bind fun t => m.run t es := rfl

theorem run_singleton {s : σ} {e : ε} : m.run s [e] = m.step s e := by
  simp

theorem run_append (s : σ) (es fs : List ε) :
    m.run s (es ++ fs) = (m.run s es).bind fun t => m.run t fs := by
  induction es generalizing s with
  | nil => rfl
  | cons e es ih =>
      cases hstep : m.step s e with
      | none => simp [hstep]
      | some t => simp [hstep, ih]

/-- Two runs, one starting where the other ends, make one run. -/
theorem run_trans {s t u : σ} {es fs : List ε}
    (hfirst : m.run s es = some t) (hsecond : m.run t fs = some u) :
    m.run s (es ++ fs) = some u := by
  rw [run_append, hfirst]
  exact hsecond

/-- The states some run from the initial state ends in. -/
def Reachable (s : σ) : Prop :=
  ∃ es, m.run m.init es = some s

theorem reachable_init : m.Reachable m.init := ⟨[], rfl⟩

variable {m}

theorem Reachable.run {s t : σ} {es : List ε} (hs : m.Reachable s)
    (hrun : m.run s es = some t) : m.Reachable t := by
  obtain ⟨fs, hfs⟩ := hs
  exact ⟨fs ++ es, m.run_trans hfs hrun⟩

theorem Reachable.step {s t : σ} {e : ε} (hs : m.Reachable s)
    (hstep : m.step s e = some t) : m.Reachable t :=
  hs.run (m.run_singleton.trans hstep)

/-- What one step preserves, a whole run preserves. -/
theorem run_invariant {I : σ → Prop}
    (hpres : ∀ s e t, I s → m.step s e = some t → I t)
    {s t : σ} {es : List ε} (hs : I s) (hrun : m.run s es = some t) : I t := by
  induction es generalizing s with
  | nil =>
      obtain rfl : s = t := by simpa using hrun
      exact hs
  | cons e es ih =>
      obtain ⟨u, hstep, hrest⟩ := Option.bind_eq_some_iff.mp hrun
      exact ih (hpres s e u hs hstep) hrest

/-- An inductive invariant holds in every reachable state. -/
theorem Reachable.invariant {I : σ → Prop} (hinit : I m.init)
    (hpres : ∀ s e t, I s → m.step s e = some t → I t)
    {s : σ} (hs : m.Reachable s) : I s := by
  obtain ⟨es, hrun⟩ := hs
  exact run_invariant hpres hinit hrun

/-! ## Runs whose steps all meet a condition -/

/-- Every step that a run takes meets `C`, a condition on the state before the
step and on the event. -/
def Guarded (m : Machine σ ε) (C : σ → ε → Prop) : σ → List ε → Prop
  | _, [] => True
  | s, e :: es => C s e ∧ ∀ t, m.step s e = some t → Guarded m C t es

@[simp] theorem guarded_nil (C : σ → ε → Prop) (s : σ) : m.Guarded C s [] := trivial

instance decidableGuarded {C : σ → ε → Prop} [∀ s e, Decidable (C s e)] :
    (s : σ) → (es : List ε) → Decidable (m.Guarded C s es)
  | _, [] => .isTrue trivial
  | s, e :: es =>
      match hstep : m.step s e with
      | none => decidable_of_iff (C s e) (by simp [Guarded, hstep])
      | some t =>
          have : Decidable (m.Guarded C t es) := decidableGuarded t es
          decidable_of_iff (C s e ∧ m.Guarded C t es) (by simp [Guarded, hstep])

/-- What a step meeting the condition preserves, a run whose steps all meet it
preserves. -/
theorem run_invariant_of_guarded {I : σ → Prop} {C : σ → ε → Prop}
    (hpres : ∀ s e t, I s → C s e → m.step s e = some t → I t)
    {s t : σ} {es : List ε} (hs : I s) (hguard : m.Guarded C s es)
    (hrun : m.run s es = some t) : I t := by
  induction es generalizing s with
  | nil =>
      obtain rfl : s = t := by simpa using hrun
      exact hs
  | cons e es ih =>
      obtain ⟨u, hstep, hrest⟩ := Option.bind_eq_some_iff.mp hrun
      exact ih (hpres s e u hs hguard.1 hstep) (hguard.2 u hstep) hrest

/-- The property holds in every state that a run passes through. -/
def Always (m : Machine σ ε) (P : σ → Prop) (s : σ) (es : List ε) : Prop :=
  ∀ es₁ t, es₁ <+: es → m.run s es₁ = some t → P t

theorem always_nil {P : σ → Prop} {s : σ} : m.Always P s [] ↔ P s := by
  constructor
  · exact fun h => h [] s List.prefix_rfl rfl
  · intro hs es₁ t hle hrun
    obtain rfl := List.prefix_nil.mp hle
    exact Option.some.inj hrun ▸ hs

theorem always_cons {P : σ → Prop} {s : σ} {e : ε} {es : List ε} :
    m.Always P s (e :: es) ↔ P s ∧ ∀ t, m.step s e = some t → m.Always P t es := by
  constructor
  · intro h
    refine ⟨h [] s (List.nil_prefix) rfl, fun t hstep es₁ u hle hrun => ?_⟩
    exact h (e :: es₁) u (List.cons_prefix_cons.mpr ⟨rfl, hle⟩)
      (Option.bind_eq_some_iff.mpr ⟨t, hstep, hrun⟩)
  · rintro ⟨hs, hrest⟩ es₁ u hle hrun
    cases es₁ with
    | nil => exact Option.some.inj hrun ▸ hs
    | cons f es₁ =>
        obtain ⟨rfl, htail⟩ := List.cons_prefix_cons.mp hle
        obtain ⟨t, hstep, hrun⟩ := Option.bind_eq_some_iff.mp hrun
        exact hrest t hstep es₁ u htail hrun

/-- What a step meeting the condition preserves holds in every state of a run
whose steps all meet it. -/
theorem always_of_guarded {I : σ → Prop} {C : σ → ε → Prop}
    (hpres : ∀ s e t, I s → C s e → m.step s e = some t → I t)
    {s : σ} {es : List ε} (hs : I s) (hguard : m.Guarded C s es) : m.Always I s es := by
  induction es generalizing s with
  | nil => exact always_nil.mpr hs
  | cons e es ih =>
      refine always_cons.mpr ⟨hs, fun t hstep => ?_⟩
      exact ih (hpres s e t hs hguard.1 hstep) (hguard.2 t hstep)

theorem Always.mono {P Q : σ → Prop} (h : ∀ s, P s → Q s) {s : σ} {es : List ε}
    (hs : m.Always P s es) : m.Always Q s es :=
  fun es₁ t hle hrun => h t (hs es₁ t hle hrun)

/-- A run that ends in a bad state is not always good. -/
theorem not_always_of_run {P : σ → Prop} {s t : σ} {es : List ε} (hrun : m.run s es = some t)
    (ht : ¬P t) : ¬m.Always P s es :=
  fun h => ht (h es t List.prefix_rfl hrun)

/-- Where a step from a good state leads to a good state exactly when it meets
the condition, a run stays good exactly when all its steps do. -/
theorem always_iff_guarded {I P : σ → Prop} {C : σ → ε → Prop}
    (hpres : ∀ s e t, I s → P s → m.step s e = some t → I t ∧ (P t ↔ C s e))
    {s : σ} (hI : I s) (hP : P s) {t : σ} {es : List ε} (hrun : m.run s es = some t) :
    m.Always P s es ↔ m.Guarded C s es := by
  induction es generalizing s with
  | nil => simpa [always_nil] using hP
  | cons e es ih =>
      obtain ⟨u, hstep, hrest⟩ := Option.bind_eq_some_iff.mp hrun
      obtain ⟨hI', hiff⟩ := hpres s e u hI hP hstep
      simp only [always_cons, hP, true_and, Guarded, hstep, Option.some.injEq, forall_eq']
      constructor
      · intro h
        have hP' : P u := h [] u List.nil_prefix rfl
        exact ⟨hiff.mp hP', (ih hI' hP' hrest).mp h⟩
      · rintro ⟨hC, hguard⟩
        exact (ih hI' (hiff.mpr hC) hrest).mpr hguard

/-! ## Simulation -/

/-- Every step of `m` is matched by a (possibly empty) run of `a` that restores
the relation `R`. -/
structure Simulation (m : Machine σ ε) (a : Machine σ' ε') (R : σ → σ' → Prop) :
    Prop where
  /-- The initial states are related. -/
  init : R m.init a.init
  /-- One step below is a run above. -/
  step : ∀ {s t : σ} {e : ε} {s' : σ'}, R s s' → m.step s e = some t →
    ∃ es' t', a.run s' es' = some t' ∧ R t t'

/-- A simulation relates every reachable state below to a reachable state
above. -/
theorem Simulation.reachable {a : Machine σ' ε'} {R : σ → σ' → Prop}
    (hsim : Simulation m a R) {s : σ} (hs : m.Reachable s) :
    ∃ s', a.Reachable s' ∧ R s s' := by
  refine hs.invariant (I := fun s => ∃ s', a.Reachable s' ∧ R s s')
    ⟨a.init, a.reachable_init, hsim.init⟩ ?_
  rintro s e t ⟨s', hreach, hR⟩ hstep
  obtain ⟨es', t', hrun, hR'⟩ := hsim.step hR hstep
  exact ⟨t', hreach.run hrun, hR'⟩

end Machine
end Lib
end DocaStdexec
