import DocaStdexec.Lib.Resumption

/-!
# Programs in a fixed environment

An environment that answers a call always in the same way determines which calls a program
makes and what it returns.
-/

namespace DocaStdexec
namespace Lib
namespace Resumption

universe u v w

variable {Op : Type u} {Ans : Op → Type v} {α β : Type w}

/-- The calls of a program, in order, and its result. -/
def play (env : (op : Op) → Ans op) : Resumption Ans α → List Op × α
  | ret a => ([], a)
  | call op next => ((op :: (play env (next (env op))).1), (play env (next (env op))).2)

@[simp] theorem play_ret (env : (op : Op) → Ans op) (a : α) :
    (ret a : Resumption Ans α).play env = ([], a) := rfl

@[simp] theorem play_call (env : (op : Op) → Ans op) (op : Op)
    (next : Ans op → Resumption Ans α) :
    (call op next).play env =
      (op :: ((next (env op)).play env).1, ((next (env op)).play env).2) := rfl

/-- Sequential composition: first the calls of `p`, then those of its continuation. -/
theorem play_bind (env : (op : Op) → Ans op) (p : Resumption Ans α)
    (f : α → Resumption Ans β) :
    (p.bind f).play env =
      ((p.play env).1 ++ ((f (p.play env).2).play env).1, ((f (p.play env).2).play env).2) := by
  induction p with
  | ret a => rfl
  | call op next ih => rw [call_bind, play_call, play_call, ih, List.cons_append]

end Resumption
end Lib
end DocaStdexec
