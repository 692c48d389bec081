import DocaStdexec.Lib.Connection

/-!
# Programs that read and may stop half way

`Download` is the counterpart of `Upload` for a program that only reads: it collects a
given number of bytes, and returns at once when a `::recv` brings none.  A `::recv`
brings none when it would block, when the stream has ended, or when it fails.
-/

namespace DocaStdexec
namespace Lib

/-- Why a program stops reading. -/
inductive Stop
  | blocked
  | ended
  | failed
  deriving DecidableEq

/-- A `::recv` that has brought nothing. -/
def Transfer.stop : Transfer (List UInt8) → Option Stop
  | .done [] => some .ended
  | .done (_ :: _) => none
  | .failed err => some (if err.wouldBlock then .blocked else .failed)

/-- The program has read `got`, reads `size` bytes more and then returns a result in
`Q` for all that it has read, or it stops at a `::recv` that brings nothing and returns
a result in `H` for that stop and for what it has read until then. -/
inductive Download {α : Type} (fd : Int) (Q : List UInt8 → α → Prop)
    (H : Stop → List UInt8 → α → Prop) : List UInt8 → Nat → Program α → Prop
  | ret {got : List UInt8} {a : α} (ha : Q got a) : Download fd Q H got 0 (.ret a)
  | recv {got : List UInt8} {size request : Nat} {next : Transfer (List UInt8) → Program α}
      (hpos : 1 ≤ request) (hsize : request ≤ size)
      (hdone : ∀ bytes : List UInt8, 1 ≤ bytes.length → bytes.length ≤ request →
        Download fd Q H (got ++ bytes) (size - bytes.length) (next (.done bytes)))
      (hstop : ∀ r x, r.stop = some x → ∃ a, next r = .ret a ∧ H x got a) :
      Download fd Q H got size (.call (.recv fd request) next)

namespace Download

variable {α : Type} {fd : Int} {Q : List UInt8 → α → Prop} {H : Stop → List UInt8 → α → Prop}
  {got : List UInt8} {size : Nat} {p : Program α}

/-- When the stream carries all that the program asks for and every transfer moves
something, the program reads exactly that. -/
theorem exchange (h : Download fd Q H got size p) (inn : List UInt8) (hinn : inn.length = size) :
    Exchange fd (Q (got ++ inn)) [] inn p := by
  induction h generalizing inn with
  | ret ha =>
      obtain rfl := List.length_eq_zero_iff.mp hinn
      rw [List.append_nil]
      exact .ret ha
  | @recv got size request next hpos hsize hdone hstop ih =>
      refine .recv hpos (hinn ▸ hsize) fun k hk hkr => ?_
      have hlen : (inn.take k).length = k := List.length_take_of_le (by omega)
      have hrest := ih (inn.take k) (by omega) (by omega) (inn.drop k)
        (by rw [List.length_drop, hlen, hinn])
      rwa [List.append_assoc, List.take_append_drop] at hrest

/-- On any kernel the program takes the start of the stream; when it stops before it
has all that it asks for, the stream has ended or a transfer has failed. -/
theorem exec (h : Download fd Q H got size p) (κ : Kernel) (c : Connection) :
    ∃ a m bytes left, Program.exec κ fd true p c = some (a, ⟨m, left, c.outgoing⟩) ∧
      c.incoming = bytes ++ left ∧
      (bytes.length = size ∧ Q (got ++ bytes) a ∨
        bytes.length < size ∧ ∃ x, H x (got ++ bytes) a ∧
          (x = .ended ∧ left = [] ∨ x ≠ .ended ∧ ¬κ.Faultless)) := by
  induction h generalizing c with
  | @ret got a ha =>
      refine ⟨a, c.transfers, [], c.incoming, rfl, rfl, .inl ⟨rfl, ?_⟩⟩
      rwa [List.append_nil]
  | @recv got size request next hpos hsize hdone hstop ih =>
      cases hk : κ.answer c.transfers (min request c.incoming.length) with
      | done k =>
          have hle := κ.le_limit hk
          have hlen : (c.incoming.take k).length = k := List.length_take_of_le (by omega)
          by_cases hzero : k = 0
          · -- nothing is left on the stream
            subst hzero
            have hempty : c.incoming = [] := by
              by_contra hne
              have hpos' := List.length_pos_iff.mpr hne
              exact absurd (κ.pos hk (by omega)) (by omega)
            obtain ⟨a, hret, ha⟩ := hstop (.done []) .ended rfl
            rw [← List.append_nil got] at ha
            refine ⟨a, c.transfers + 1, [], [], ?_, hempty,
              .inr ⟨Nat.lt_of_lt_of_le hpos hsize, .ended, ha, .inl ⟨rfl, rfl⟩⟩⟩
            simp only [Program.exec, if_true, hk, Bool.true_eq_false, and_false, if_false,
              List.take_zero, List.drop_zero, hret]
            rw [hempty]
          · obtain ⟨a, m, bytes, left, hrun, hsplit, hend⟩ :=
              ih (c.incoming.take k) (by omega) (by omega)
                ⟨c.transfers + 1, c.incoming.drop k, c.outgoing⟩
            refine ⟨a, m, c.incoming.take k ++ bytes, left, ?_, ?_, ?_⟩
            · simpa [Program.exec, hk] using hrun
            · rw [List.append_assoc, ← hsplit, List.take_append_drop]
            · rw [← List.append_assoc, List.length_append, hlen]
              rw [hlen] at hend
              rcases hend with ⟨hbytes, ha⟩ | ⟨hbytes, x, hx⟩
              · exact .inl ⟨by omega, ha⟩
              · exact .inr ⟨by omega, x, hx⟩
      | failed err =>
          -- what is on the stream stays there
          have hfault : ¬κ.Faultless := fun hκ => by
            obtain ⟨k, hdone⟩ := hκ c.transfers (min request c.incoming.length)
            rw [hk] at hdone
            cases hdone
          obtain ⟨a, hret, ha⟩ := hstop (.failed err) _ rfl
          have hx : (if err.wouldBlock then Stop.blocked else .failed) ≠ .ended := by
            cases err.wouldBlock <;> simp
          rw [← List.append_nil got] at ha
          refine ⟨a, c.transfers + 1, [], c.incoming, ?_, rfl,
            .inr ⟨Nat.lt_of_lt_of_le hpos hsize, _, ha, .inr ⟨hx, hfault⟩⟩⟩
          simp [Program.exec, hk, hret]

/-- The program does not wait while the stream carries all that it asks for. -/
theorem exec_ne_none (h : Download fd Q H got size p) (κ : Kernel) (c : Connection)
    (henough : size ≤ c.incoming.length) : Program.exec κ fd false p c ≠ none := by
  induction h generalizing c with
  | ret _ => simp [Program.exec]
  | @recv got size request next hpos hsize hdone hstop ih =>
      cases hk : κ.answer c.transfers (min request c.incoming.length) with
      | done k =>
          have hle := κ.le_limit hk
          have hk1 := κ.pos hk (by omega)
          have hlen : (c.incoming.take k).length = k := List.length_take_of_le (by omega)
          have hrest := ih (c.incoming.take k) (by omega) (by omega)
            ⟨c.transfers + 1, c.incoming.drop k, c.outgoing⟩
            (by simp only [List.length_take, List.length_drop]; omega)
          simpa [Program.exec, hk, Nat.one_le_iff_ne_zero.mp hk1] using hrest
      | failed err =>
          obtain ⟨a, hret, -⟩ := hstop (.failed err) _ rfl
          simp [Program.exec, hk, hret]

end Download
end Lib
end DocaStdexec
