import DocaStdexec.Lib.Connection

/-!
# Programs that write and may stop half way

`Upload` is the exchange rule for a program that only writes, on a socket whose
transfers may also accept nothing or fail.  As long as each `::send` accepts
something, the program writes its byte string; at the first one that does not, it
returns at once.
-/

namespace DocaStdexec
namespace Lib

/-- Why a program stops writing. -/
inductive Halt
  /-- A `::send` would block, or accepted nothing. -/
  | stalled
  /-- A `::send` failed otherwise. -/
  | failed
  deriving DecidableEq

/-- A transfer that moved nothing. -/
def Transfer.halt : Transfer Nat → Option Halt
  | .done 0 => some .stalled
  | .done (_ + 1) => none
  | .failed err => some (if err.wouldBlock then .stalled else .failed)

theorem Transfer.halt_eq_none {r : Transfer Nat} (h : r.halt = none) :
    ∃ k, r = .done k ∧ 1 ≤ k := by
  cases r with
  | done k =>
      cases k with
      | zero => simp [Transfer.halt] at h
      | succ k => exact ⟨k + 1, rfl, Nat.succ_pos k⟩
  | failed err => simp [Transfer.halt] at h

/-- The program writes `out` and then returns a result in `Q`, or it stops at a
transfer that moved nothing and returns a result in `H` for that halt. -/
inductive Upload {α : Type} (fd : Int) (Q : α → Prop) (H : Halt → α → Prop) :
    List UInt8 → Program α → Prop
  | ret {a : α} (ha : Q a) : Upload fd Q H [] (.ret a)
  | send {out data : List UInt8} {next : Transfer Nat → Program α}
      (hdata : data ≠ []) (hinto : data <+: out)
      (hdone : ∀ k, 1 ≤ k → k ≤ data.length → Upload fd Q H (out.drop k) (next (.done k)))
      (hhalt : ∀ r h, r.halt = some h → ∃ a, next r = .ret a ∧ H h a) :
      Upload fd Q H out (.call (.send fd data) next)

namespace Upload

variable {α β : Type} {fd : Int} {Q : α → Prop} {H : Halt → α → Prop} {R : β → Prop}
  {J : Halt → β → Prop}

/-- One program after the other; the second is not started when the first stops
half way. -/
theorem bind {out out' : List UInt8} {p : Program α} {f : α → Program β}
    (h : Upload fd Q H out p) (hf : ∀ a, Q a → Upload fd R J out' (f a))
    (hhalt : ∀ x a, H x a → ∃ b, f a = .ret b ∧ J x b) :
    Upload fd R J (out ++ out') (p.bind f) := by
  induction h with
  | ret ha => exact hf _ ha
  | @send out data next hdata hinto _ hnext ih =>
      refine .send hdata (hinto.trans (List.prefix_append _ _)) (fun k hk hlen => ?_) ?_
      · rw [List.drop_append_of_le_length (hlen.trans hinto.length_le)]
        exact ih k hk hlen
      · intro r x hr
        obtain ⟨a, ha, hx⟩ := hnext r x hr
        rw [ha, Resumption.ret_bind]
        exact hhalt x a hx

/-- When every transfer moves something, the program writes its byte string. -/
theorem exchange {out : List UInt8} {p : Program α} (h : Upload fd Q H out p) :
    Exchange fd Q out [] p := by
  induction h with
  | ret ha => exact .ret ha
  | send hdata hinto _ _ ih => exact .send hdata hinto ih

/-- A program that has returned without a halt has written everything. -/
theorem of_ret {out : List UInt8} {a : α} (h : Upload fd Q H out (.ret a)) : out = [] ∧ Q a := by
  cases h with
  | ret ha => exact ⟨rfl, ha⟩

/-- A program that has something left to write waits in a `::send`. -/
theorem of_ne_nil {out : List UInt8} {p : Program α} (h : Upload fd Q H out p) (hout : out ≠ []) :
    ∃ data next, p = .call (.send fd data) next ∧ data ≠ [] ∧ data <+: out ∧
      (∀ k, 1 ≤ k → k ≤ data.length → Upload fd Q H (out.drop k) (next (.done k))) ∧
      ∀ r h, r.halt = some h → ∃ a, next r = .ret a ∧ H h a := by
  cases h with
  | ret _ => exact absurd rfl hout
  | @send _ data next hdata hinto hdone hhalt =>
      exact ⟨data, next, rfl, hdata, hinto, hdone, hhalt⟩

/-- A program that has not returned has something left to write. -/
theorem ne_nil_of_call {out : List UInt8} {op : SysCall}
    {next : SysCall.Answer op → Program α} (h : Upload fd Q H out (.call op next)) :
    out ≠ [] := by
  cases h with
  | send hdata hinto _ _ =>
      rintro rfl
      exact hdata (List.prefix_nil.mp hinto)

/-- On any kernel the program puts the start of its byte string on the stream; when it
stops before the end, a transfer has moved nothing. -/
theorem exec {out : List UInt8} {p : Program α} (h : Upload fd Q H out p) (κ : Kernel)
    (ended : Bool) (c : Connection) :
    ∃ a m sent rest, Program.exec κ fd ended p c =
        some (a, ⟨m, c.incoming, c.outgoing ++ sent⟩) ∧ sent ++ rest = out ∧
      (rest = [] ∧ Q a ∨ rest ≠ [] ∧ ∃ x, H x a) := by
  induction h generalizing c with
  | @ret a ha => exact ⟨a, c.transfers, [], [], by simp [Program.exec], rfl, .inl ⟨rfl, ha⟩⟩
  | @send out data next hdata hinto hdone hhalt ih =>
      have hpos := List.length_pos_iff.mpr hdata
      have hout : out ≠ [] := fun hout => hdata (List.prefix_nil.mp (hout ▸ hinto))
      cases hk : κ.answer c.transfers data.length with
      | done k =>
          have hlen := κ.le_limit hk
          obtain ⟨tail, rfl⟩ := hinto
          obtain ⟨a, m, sent, rest, hrun, hsplit, hend⟩ := ih k (κ.pos hk hpos) hlen
            ⟨c.transfers + 1, c.incoming, c.outgoing ++ data.take k⟩
          rw [List.append_assoc] at hrun
          refine ⟨a, m, data.take k ++ sent, rest, ?_, ?_, hend⟩
          · simpa only [Program.exec, if_true, hk] using hrun
          · rw [List.append_assoc, hsplit, List.drop_append_of_le_length hlen,
              ← List.append_assoc, List.take_append_drop]
      | failed err =>
          obtain ⟨a, hret, ha⟩ := hhalt (.failed err) _ rfl
          refine ⟨a, c.transfers + 1, [], out, ?_, rfl, .inr ⟨hout, _, ha⟩⟩
          simp [Program.exec, hk, hret]

end Upload
end Lib
end DocaStdexec
