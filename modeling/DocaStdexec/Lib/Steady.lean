import DocaStdexec.Lib.Upload
import DocaStdexec.Lib.Download

/-!
# Programs on a connection that stays alive

On a connection that is alive a `::send` may accept anything and a `::recv` brings
something, and either may also say that it would block.  A program is `Steady` when it
returns a result in `Q` as long as it gets no other answer.  In particular it never asks
for zero bytes, since the answer to that looks like the end of the stream.
-/

namespace DocaStdexec
namespace Lib

/-- On a connection that stays alive the program returns a result in `Q`. -/
inductive Steady {α : Type} (Q : α → Prop) : Program α → Prop
  | ret {a : α} (ha : Q a) : Steady Q (.ret a)
  | send {fd : Int} {data : List UInt8} {next : Transfer Nat → Program α}
      (hdone : ∀ k, k ≤ data.length → Steady Q (next (.done k)))
      (hblock : ∀ err, err.wouldBlock = true → Steady Q (next (.failed err))) :
      Steady Q (.call (.send fd data) next)
  | recv {fd : Int} {size : Nat} {next : Transfer (List UInt8) → Program α} (hpos : 1 ≤ size)
      (hdone : ∀ bytes : List UInt8, 1 ≤ bytes.length → bytes.length ≤ size →
        Steady Q (next (.done bytes)))
      (hblock : ∀ err, err.wouldBlock = true → Steady Q (next (.failed err))) :
      Steady Q (.call (.recv fd size) next)

namespace Steady

variable {α β : Type} {Q : α → Prop} {R : β → Prop}

theorem bind {p : Program α} {f : α → Program β} (h : Steady Q p)
    (hf : ∀ a, Q a → Steady R (f a)) : Steady R (p.bind f) := by
  induction h with
  | ret ha => exact hf _ ha
  | send _ _ hdone hblock => exact .send hdone hblock
  | recv hpos _ _ hdone hblock => exact .recv hpos hdone hblock

/-- Only a part of the result is kept. -/
theorem left {b : β} {f : α → β} {p : Program α} (h : Steady (fun a => f a = b) p) :
    Steady (· = b) (p.bind fun a => .ret (f a)) :=
  h.bind fun _ ha => .ret ha

end Steady

/-- A program that writes, and returns in `R` also when it stalls. -/
theorem Upload.steady {α : Type} {fd : Int} {Q R : α → Prop} {H : Halt → α → Prop}
    {out : List UInt8} {p : Program α} (h : Upload fd Q H out p) (hQ : ∀ a, Q a → R a)
    (hH : ∀ a, H .stalled a → R a) : Steady R p := by
  induction h with
  | ret ha => exact .ret (hQ _ ha)
  | @send out data next hdata hinto hdone hhalt ih =>
      have hstalled (r : Transfer Nat) (hr : r.halt = some .stalled) : Steady R (next r) := by
        obtain ⟨a, hret, ha⟩ := hhalt r .stalled hr
        rw [hret]
        exact .ret (hH a ha)
      refine .send (fun k hk => ?_) fun err hblock => hstalled _ ?_
      · cases k with
        | zero => exact hstalled _ rfl
        | succ k => exact ih (k + 1) (Nat.succ_pos k) hk
      · rw [Transfer.halt, if_pos hblock]

/-- A program that reads, and returns in `R` also when it would block. -/
theorem Download.steady {α : Type} {fd : Int} {Q : List UInt8 → α → Prop} {R : α → Prop}
    {H : Stop → List UInt8 → α → Prop} {got : List UInt8} {size : Nat} {p : Program α}
    (h : Download fd Q H got size p) (hQ : ∀ got a, Q got a → R a)
    (hH : ∀ got a, H .blocked got a → R a) : Steady R p := by
  induction h with
  | ret ha => exact .ret (hQ _ _ ha)
  | @recv got size request next hpos hsize hdone hstop ih =>
      refine .recv hpos ih fun err hblock => ?_
      obtain ⟨a, hret, ha⟩ :=
        hstop (.failed err) .blocked (by rw [Transfer.stop, if_pos hblock])
      rw [hret]
      exact .ret (hH got a ha)

end Lib
end DocaStdexec
