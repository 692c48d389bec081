/-!
# Resumptions

A `Resumption` is a program that stops at every call to its environment and
goes on with the answer.  Sequential code is written in the monad; a system of
several programs and their environment takes one call of one program at a time,
so every interleaving of the calls is a run of the system.

A `Method` is code of an object: it reads and writes the object's state and may
throw, and the state survives the throw.
-/

namespace DocaStdexec
namespace Lib

universe u v w

/-- A program that calls `op : Op` and is answered with an `Ans op`. -/
inductive Resumption {Op : Type u} (Ans : Op → Type v) (α : Type w)
  /-- The program returns. -/
  | ret (a : α)
  /-- The program calls its environment and continues with the answer. -/
  | call (op : Op) (next : Ans op → Resumption Ans α)

namespace Resumption

variable {Op : Type u} {Ans : Op → Type v} {α β γ : Type w}

/-- Run `f` where `p` returns. -/
def bind : Resumption Ans α → (α → Resumption Ans β) → Resumption Ans β
  | ret a, f => f a
  | call op next, f => call op fun r => bind (next r) f

@[simp] theorem ret_bind (a : α) (f : α → Resumption Ans β) : (ret a).bind f = f a := rfl

@[simp] theorem call_bind (op : Op) (next : Ans op → Resumption Ans α)
    (f : α → Resumption Ans β) : (call op next).bind f = call op fun r => (next r).bind f := rfl

theorem bind_assoc (p : Resumption Ans α) (f : α → Resumption Ans β)
    (g : β → Resumption Ans γ) : (p.bind f).bind g = p.bind fun a => (f a).bind g := by
  induction p with
  | ret a => rfl
  | call op next ih => exact congrArg (call op) (funext ih)

/-- Whatever the environment answers, only results in `P` are returned. -/
def Ensures (P : α → Prop) : Resumption Ans α → Prop
  | ret a => P a
  | call _ next => ∀ r, Ensures P (next r)

/-- The last part of a program decides what it returns. -/
theorem ensures_bind {P : β → Prop} {f : α → Resumption Ans β} (hf : ∀ a, Ensures P (f a))
    (p : Resumption Ans α) : Ensures P (p.bind f) := by
  induction p with
  | ret a => exact hf a
  | call op next ih => exact ih

end Resumption

/-- Code of an object with state `σ` that may throw an `ε`. -/
def Method {Op : Type u} (Ans : Op → Type v) (ε σ : Type w) (α : Type w) :
    Type (max u v w) :=
  σ → Resumption Ans (Except ε α × σ)

namespace Method

variable {Op : Type u} {Ans : Op → Type v} {ε σ ρ α β : Type w}

instance : Monad (Method Ans ε σ) where
  pure a := fun s => .ret (.ok a, s)
  bind m f := fun s => (m s).bind fun
    | (.ok a, s') => f a s'
    | (.error e, s') => .ret (.error e, s')

/-- The object's state. -/
def self : Method Ans ε σ σ := fun s => .ret (.ok s, s)

/-- Assign to the object. -/
def assign (f : σ → σ) : Method Ans ε σ PUnit := fun s => .ret (.ok ⟨⟩, f s)

/-- Throw, leaving the object as it is. -/
def raise (e : ε) : Method Ans ε σ α := fun s => .ret (.error e, s)

/-- Call the environment. -/
def sys {Op : Type u} {Ans : Op → Type w} {ε σ : Type w} (op : Op) : Method Ans ε σ (Ans op) :=
  fun s => .call op fun r => .ret (.ok r, s)

/-- Run code that works on the object and on a local variable that starts as
`x`; the local is returned with the result and is lost when the code throws. -/
def withLocal (x : ρ) (m : Method Ans ε (σ × ρ) α) : Method Ans ε σ (α × ρ) := fun s =>
  (m (s, x)).bind fun
    | (.ok a, (s', x')) => .ret (.ok (a, x'), s')
    | (.error e, (s', _)) => .ret (.error e, s')

theorem bind_run (m : Method Ans ε σ α) (f : α → Method Ans ε σ β) (s : σ) :
    (m >>= f) s = (m s).bind fun
      | (.ok a, s') => f a s'
      | (.error e, s') => .ret (.error e, s') := rfl

@[simp] theorem pure_run (a : α) (s : σ) :
    (pure a : Method Ans ε σ α) s = .ret (.ok a, s) := rfl

@[simp] theorem self_run (s : σ) : (self : Method Ans ε σ σ) s = .ret (.ok s, s) := rfl

@[simp] theorem assign_run (f : σ → σ) (s : σ) :
    (assign f : Method Ans ε σ PUnit) s = .ret (.ok ⟨⟩, f s) := rfl

@[simp] theorem raise_run (e : ε) (s : σ) :
    (raise e : Method Ans ε σ α) s = .ret (.error e, s) := rfl

end Method
end Lib
end DocaStdexec
