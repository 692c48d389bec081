import DocaStdexec.Lib.Socket

/-!
# Running a program on one connection

`Program.exec` runs a program over the socket calls to its end against a `Kernel`
that decides how much each transfer moves, or that it fails.  The incoming byte
string is given from the start; at its end a `::recv` reports the end of the
stream, or waits for ever when the peer may still send.

A program is a well-founded tree of calls, so `exec` is a total function: a run
ends or waits for ever, whatever the kernel does.  `Exchange.exec` carries the
exchange rule over: on a kernel without faults the cut of the transfers does not
matter.
-/

namespace DocaStdexec
namespace Lib

/-- How the kernel answers: the `n`-th transfer, when at most `limit` bytes can be
moved, moves some of them or fails. -/
structure Kernel where
  answer : Nat → Nat → Transfer Nat
  le_limit : ∀ {n limit k : Nat}, answer n limit = .done k → k ≤ limit
  pos : ∀ {n limit k : Nat}, answer n limit = .done k → 1 ≤ limit → 1 ≤ k

namespace Kernel

/-- No transfer fails. -/
def Faultless (κ : Kernel) : Prop := ∀ n limit, ∃ k, κ.answer n limit = .done k

/-- The kernel that moves as much as it can. -/
def whole : Kernel where
  answer _ limit := .done limit
  le_limit h := by cases h; exact le_rfl
  pos h hlimit := by cases h; exact hlimit

theorem whole_faultless : whole.Faultless := fun _ limit => ⟨limit, rfl⟩

/-- The kernel that moves one byte at a time. -/
def bytewise : Kernel where
  answer _ limit := .done (min 1 limit)
  le_limit h := by cases h; exact Nat.min_le_right _ _
  pos h hlimit := by cases h; omega

theorem bytewise_faultless : bytewise.Faultless := fun _ limit => ⟨min 1 limit, rfl⟩

end Kernel

/-- One end of a connection: how many transfers it has made, the bytes that it can
still receive and the bytes that it has sent. -/
structure Connection where
  transfers : Nat
  incoming : List UInt8
  outgoing : List UInt8

namespace Program

variable {α β : Type}

/-- Run a program on the descriptor `fd`; `ended` says that the peer sends nothing
after the incoming bytes.  `none` is a program that waits for ever, or makes a call
that is not a transfer on `fd`. -/
def exec (κ : Kernel) (fd : Int) (ended : Bool) : Program α → Connection → Option (α × Connection)
  | .ret a, c => some (a, c)
  | .call (.send fd' data) next, c =>
      if fd' = fd then
        match κ.answer c.transfers data.length with
        | .done k =>
            exec κ fd ended (next (.done k))
              ⟨c.transfers + 1, c.incoming, c.outgoing ++ data.take k⟩
        | .failed err =>
            exec κ fd ended (next (.failed err)) { c with transfers := c.transfers + 1 }
      else none
  | .call (.recv fd' size) next, c =>
      if fd' = fd then
        match κ.answer c.transfers (min size c.incoming.length) with
        | .done k =>
            -- nothing to take: the stream has ended, nothing was asked for, or it waits
            if k = 0 ∧ size ≠ 0 ∧ ended = false then none
            else
              exec κ fd ended (next (.done (c.incoming.take k)))
                ⟨c.transfers + 1, c.incoming.drop k, c.outgoing⟩
        | .failed err =>
            exec κ fd ended (next (.failed err)) { c with transfers := c.transfers + 1 }
      else none
  | .call _ _, _ => none

variable {κ : Kernel} {fd : Int} {ended : Bool}

/-- A program runs as its first part, and then as the rest. -/
theorem exec_bind (p : Program α) (f : α → Program β) (c : Connection) :
    exec κ fd ended (p.bind f) c =
      (exec κ fd ended p c).bind fun r => exec κ fd ended (f r.1) r.2 := by
  induction p generalizing c with
  | ret a => rfl
  | call op next ih =>
      cases op with
      | send fd' data =>
          simp only [Resumption.call_bind, exec]
          split
          · split
            · exact ih _ _
            · exact ih _ _
          · rfl
      | recv fd' size =>
          simp only [Resumption.call_bind, exec]
          split
          · split
            · split
              · rfl
              · exact ih _ _
            · exact ih _ _
          · rfl
      | _ => rfl

/-- While the peer may still send, a program waits for ever or runs as it does on a
stream that has ended. -/
theorem exec_open (p : Program α) (c : Connection) :
    exec κ fd false p c = none ∨ exec κ fd false p c = exec κ fd true p c := by
  induction p generalizing c with
  | ret a => exact .inr rfl
  | call op next ih =>
      cases op with
      | send fd' data =>
          simp only [exec]
          split
          · split
            · exact ih _ _
            · exact ih _ _
          · exact .inl rfl
      | recv fd' size =>
          simp only [exec]
          split
          · split
            · split
              · exact .inl rfl
              · simpa using ih _ _
            · exact ih _ _
          · exact .inl rfl
      | _ => exact .inl rfl

end Program

namespace Exchange

variable {α : Type} {κ : Kernel} {fd : Int} {Q : α → Prop}

/-- On a kernel without faults an exchange transfers exactly its byte strings,
however the transfers are cut. -/
theorem exec {out inn : List UInt8} {p : Program α} (h : Exchange fd Q out inn p)
    (hκ : κ.Faultless) (ended : Bool) (n : Nat) (rest sent : List UInt8) :
    ∃ a m, Program.exec κ fd ended p ⟨n, inn ++ rest, sent⟩ =
      some (a, ⟨m, rest, sent ++ out⟩) ∧ Q a := by
  induction h generalizing n sent with
  | @ret a ha => exact ⟨a, n, by simp [Program.exec], ha⟩
  | @send out inn data next hdata hinto hnext ih =>
      obtain ⟨k, hk⟩ := hκ n data.length
      have hlen := κ.le_limit hk
      obtain ⟨tail, rfl⟩ := hinto
      obtain ⟨a, m, hrun, ha⟩ :=
        ih k (κ.pos hk (List.length_pos_iff.mpr hdata)) hlen (n + 1) (sent ++ data.take k)
      refine ⟨a, m, ?_, ha⟩
      rw [List.drop_append_of_le_length hlen, List.append_assoc, ← List.append_assoc (data.take k),
        List.take_append_drop] at hrun
      simp only [Program.exec, if_true, hk]
      exact hrun
  | @recv inn size next hpos hsize hnext ih =>
      have hlimit : min size (inn ++ rest).length = size := by
        rw [List.length_append]
        omega
      obtain ⟨k, hk⟩ := hκ n size
      have hk1 := κ.pos hk hpos
      have hlen := κ.le_limit hk
      obtain ⟨a, m, hrun, ha⟩ := ih k hk1 hlen (n + 1) sent
      refine ⟨a, m, ?_, ha⟩
      simp only [Program.exec, if_true, hlimit, hk]
      rw [if_neg (fun hwait => absurd hwait.1 (Nat.ne_of_gt hk1)),
        List.take_append_of_le_length (hlen.trans hsize),
        List.drop_append_of_le_length (hlen.trans hsize)]
      exact hrun

end Exchange
end Lib
end DocaStdexec
