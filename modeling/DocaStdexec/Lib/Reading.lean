import DocaStdexec.Lib.Download

/-!
# Programs that read known bytes and may stop half way

`Reading` is `Download` for a stream whose bytes are known: the program reads exactly
`inn`, or stops at a `::recv` that brings nothing.  Unlike a download it composes, since
what the next program reads may depend on what this one has returned.
-/

namespace DocaStdexec
namespace Lib

/-- However its `::recv`s are cut, the program reads exactly `inn` and returns a result
in `Q`, or it stops at a `::recv` that brings nothing and returns a result in `H`. -/
inductive Reading {α : Type} (fd : Int) (Q : α → Prop) (H : Stop → α → Prop) :
    List UInt8 → Program α → Prop
  | ret {a : α} (ha : Q a) : Reading fd Q H [] (.ret a)
  | recv {inn : List UInt8} {size : Nat} {next : Transfer (List UInt8) → Program α}
      (hpos : 1 ≤ size) (hsize : size ≤ inn.length)
      (hnext : ∀ k, 1 ≤ k → k ≤ size →
        Reading fd Q H (inn.drop k) (next (.done (inn.take k))))
      (hstop : ∀ r x, r.stop = some x → ∃ a, next r = .ret a ∧ H x a) :
      Reading fd Q H inn (.call (.recv fd size) next)

theorem Download.reading {α : Type} {fd : Int} {Q : List UInt8 → α → Prop}
    {H : Stop → List UInt8 → α → Prop} {got : List UInt8} {size : Nat} {p : Program α}
    (h : Download fd Q H got size p) (inn : List UInt8) (hinn : inn.length = size) :
    Reading fd (Q (got ++ inn)) (fun x a => ∃ got', H x got' a) inn p := by
  induction h generalizing inn with
  | ret ha =>
      obtain rfl := List.length_eq_zero_iff.mp hinn
      rw [List.append_nil]
      exact .ret ha
  | @recv got size request next hpos hsize hdone hstop ih =>
      refine .recv hpos (hinn ▸ hsize) (fun k hk hkr => ?_) fun r x hr => ?_
      · have hlen : (inn.take k).length = k := List.length_take_of_le (by omega)
        have hrest := ih (inn.take k) (by omega) (by omega) (inn.drop k)
          (by rw [List.length_drop, hlen, hinn])
        rwa [List.append_assoc, List.take_append_drop] at hrest
      · obtain ⟨a, hret, ha⟩ := hstop r x hr
        exact ⟨a, hret, got, ha⟩

namespace Reading

variable {α β : Type} {fd : Int} {Q : α → Prop} {H : Stop → α → Prop} {R : β → Prop}
  {K : Stop → β → Prop} {inn inn' : List UInt8} {p : Program α}

/-- One program after the other; where the first one stops, so does the whole. -/
theorem bind {f : α → Program β} (h : Reading fd Q H inn p)
    (hf : ∀ a, Q a → Reading fd R K inn' (f a))
    (hstop : ∀ x a, H x a → ∃ b, f a = .ret b ∧ K x b) :
    Reading fd R K (inn ++ inn') (p.bind f) := by
  induction h with
  | ret ha => exact hf _ ha
  | @recv inn size next hpos hsize _ hhalt ih =>
      refine .recv hpos (hsize.trans (by simp)) (fun k hk hlen => ?_) fun r x hr => ?_
      · have hcut : k ≤ inn.length := hlen.trans hsize
        rw [List.drop_append_of_le_length hcut, List.take_append_of_le_length hcut]
        exact ih k hk hlen
      · obtain ⟨a, hret, ha⟩ := hhalt r x hr
        obtain ⟨b, hb, hK⟩ := hstop x a ha
        exact ⟨b, by rw [hret, Resumption.ret_bind, hb], hK⟩

/-- A reader followed by a program that reads nothing. -/
theorem bind_done {f : α → Program β} (h : Reading fd Q H inn p)
    (hf : ∀ a, Q a → Reading fd R K [] (f a))
    (hstop : ∀ x a, H x a → ∃ b, f a = .ret b ∧ K x b) :
    Reading fd R K inn (p.bind f) := by
  simpa only [List.append_nil] using h.bind hf hstop

/-- A program that has returned has nothing left to read. -/
theorem of_ret {a : α} (h : Reading fd Q H inn (.ret a)) : inn = [] ∧ Q a := by
  cases h with
  | ret ha => exact ⟨rfl, ha⟩

end Reading
end Lib
end DocaStdexec
