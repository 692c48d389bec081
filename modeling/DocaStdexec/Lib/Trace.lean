import Mathlib.Data.List.Infix

/-!
# Traces whose entries are justified by what came before

Many ordering laws say that an entry of a log is allowed only after certain
earlier entries.  `Justified P log` says that every entry `x` of `log` meets
`P pre x`, where `pre` are the entries before it.  A log grows at its end, so
the law is checked one appended entry at a time.
-/

namespace DocaStdexec
namespace Lib

variable {α : Type*}

/-- Every entry meets `P` of the entries before it and itself. -/
def Justified (P : List α → α → Prop) (log : List α) : Prop :=
  ∀ pre x post, log = pre ++ x :: post → P pre x

namespace Justified

variable {P : List α → α → Prop} {log more : List α}

@[simp] theorem nil : Justified P [] := by
  intro pre x post h
  simp at h

/-- The law for a log that grows by one entry. -/
theorem concat_iff {x : α} : Justified P (log ++ [x]) ↔ Justified P log ∧ P log x := by
  constructor
  · intro h
    refine ⟨fun pre y post hlog => h pre y (post ++ [x]) (by simp [hlog]), h log x [] rfl⟩
  · rintro ⟨hlog, hx⟩ pre y post hsplit
    rcases List.eq_nil_or_concat post with rfl | ⟨post, z, rfl⟩
    · obtain ⟨rfl, hy⟩ := List.append_inj' hsplit rfl
      obtain rfl := List.singleton_inj.mp hy
      exact hx
    · have hinit : log = pre ++ y :: post := by
        have hcut := congrArg List.dropLast hsplit
        rwa [List.dropLast_concat, List.concat_eq_append, ← List.cons_append,
          ← List.append_assoc, List.dropLast_concat] at hcut
      exact hlog pre y post hinit

/-- The law for a log that grows by several entries: each is judged after the
log and the new entries before it. -/
theorem append_iff :
    Justified P (log ++ more) ↔
      Justified P log ∧ Justified (fun pre x => P (log ++ pre) x) more := by
  induction more using List.reverseRecOn with
  | nil => simp
  | append_singleton more x ih => rw [← List.append_assoc, concat_iff, concat_iff, ih, and_assoc]

theorem singleton_iff {x : α} : Justified P [x] ↔ P [] x := by
  have hconcat : Justified P ([] ++ [x]) ↔ _ := concat_iff
  simpa using hconcat

/-- The law for a log read from its front. -/
theorem cons_iff {x : α} :
    Justified P (x :: log) ↔ P [] x ∧ Justified (fun pre y => P (x :: pre) y) log := by
  have hsplit : Justified P ([x] ++ log) ↔ _ := append_iff
  rw [singleton_iff] at hsplit
  exact hsplit

/-- Entries that are always allowed. -/
theorem of_forall (h : ∀ x ∈ log, ∀ pre, P pre x) : Justified P log :=
  fun pre x post hlog => h x (by simp [hlog]) pre

end Justified
end Lib
end DocaStdexec
