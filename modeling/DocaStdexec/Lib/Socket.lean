import DocaStdexec.Lib.Resumption
import Mathlib.Data.List.Infix

/-!
# Programs over stream sockets

The socket calls of the operating system as the environment of a resumption,
and the rule for programs that write a fixed byte string and then read one.

A `::send` may accept any positive part of what it is offered and a `::recv` may
return any positive part of what is there.  `Exchange out inn p Q` says that
however the environment cuts the two byte strings, `p` writes exactly `out`,
then reads exactly `inn`, asks for no byte beyond `inn`, and returns a result
in `Q`.  `Exchange.bind` composes such programs.
-/

namespace DocaStdexec
namespace Lib

/-- The values of `errno` that a failed transfer can leave. -/
inductive Errno
  | eagain
  | ewouldblock
  | other (code : Nat)
  deriving DecidableEq

/-- `errno == EAGAIN || errno == EWOULDBLOCK`. -/
def Errno.wouldBlock : Errno → Bool
  | .eagain | .ewouldblock => true
  | .other _ => false

inductive SysCall
  | socket
  | setsockopt (fd : Int)
  | inetPton (host : String)
  | gethostbyname (host : String)
  | connect (fd : Int)
  | bind (fd : Int) (port : Nat)
  | listen (fd : Int) (backlog : Int)
  | accept (fd : Int)
  | send (fd : Int) (data : List UInt8)
  | recv (fd : Int) (size : Nat)
  | close (fd : Int)
  deriving DecidableEq

/-- What a transfer returns: a count, with the bytes for `::recv`, or `-1`. -/
inductive Transfer (α : Type)
  | done (a : α)
  | failed (err : Errno)

/-- A descriptor or `-1`; success or not; a count or `-1`. -/
@[reducible] def SysCall.Answer : SysCall → Type
  | .socket | .accept _ => Int
  | .setsockopt _ | .inetPton _ | .gethostbyname _ | .connect _ | .bind _ _ | .listen _ _ => Bool
  | .send _ _ => Transfer Nat
  | .recv _ _ => Transfer (List UInt8)
  | .close _ => Unit

/-- A program over the socket calls. -/
abbrev Program := Resumption SysCall.Answer

namespace Program

variable {α : Type}

/-- The `::send` on `fd` that the program waits for accepts `k ≥ 1` of the bytes
it offers: these bytes, and how the program goes on. -/
def accept (fd : Int) (k : Nat) : Program α → Option (List UInt8 × Program α)
  | .call (.send fd' data) next =>
      if fd' = fd ∧ 1 ≤ k ∧ k ≤ data.length then some (data.take k, next (.done k)) else none
  | _ => none

/-- The `::recv` on `fd` that the program waits for takes the first `k ≥ 1` of
the bytes that are available. -/
def deliver (fd : Int) (k : Nat) (available : List UInt8) : Program α → Option (Program α)
  | .call (.recv fd' size) next =>
      if fd' = fd ∧ 1 ≤ k ∧ k ≤ size ∧ k ≤ available.length then
        some (next (.done (available.take k)))
      else none
  | _ => none

theorem accept_eq_some {fd : Int} {k : Nat} {p q : Program α} {bytes : List UInt8}
    (h : p.accept fd k = some (bytes, q)) :
    ∃ data next, p = .call (.send fd data) next ∧ 1 ≤ k ∧ k ≤ data.length ∧
      bytes = data.take k ∧ q = next (.done k) := by
  unfold accept at h
  split at h
  · next fd' data next =>
      obtain ⟨⟨rfl, hk, hlen⟩, hsome⟩ := Option.ite_none_right_eq_some.mp h
      obtain ⟨rfl, rfl⟩ := Prod.mk.inj (Option.some.inj hsome)
      exact ⟨data, next, rfl, hk, hlen, rfl, rfl⟩
  · simp at h

theorem deliver_eq_some {fd : Int} {k : Nat} {available : List UInt8} {p q : Program α}
    (h : p.deliver fd k available = some q) :
    ∃ size next, p = .call (.recv fd size) next ∧ 1 ≤ k ∧ k ≤ size ∧ k ≤ available.length ∧
      q = next (.done (available.take k)) := by
  unfold deliver at h
  split at h
  · next fd' size next =>
      obtain ⟨⟨rfl, hk, hsize, hlen⟩, hsome⟩ := Option.ite_none_right_eq_some.mp h
      exact ⟨size, next, rfl, hk, hsize, hlen, (Option.some.inj hsome).symm⟩
  · simp at h

end Program

/-- However its transfers on `fd` are cut, the program writes exactly `out`,
then reads exactly `inn`, and returns a result in `Q`. -/
inductive Exchange {α : Type} (fd : Int) (Q : α → Prop) :
    List UInt8 → List UInt8 → Program α → Prop
  | ret {a : α} (ha : Q a) : Exchange fd Q [] [] (.ret a)
  | send {out inn data : List UInt8} {next : Transfer Nat → Program α}
      (hdata : data ≠ []) (hinto : data <+: out)
      (hnext : ∀ k, 1 ≤ k → k ≤ data.length →
        Exchange fd Q (out.drop k) inn (next (.done k))) :
      Exchange fd Q out inn (.call (.send fd data) next)
  | recv {inn : List UInt8} {size : Nat} {next : Transfer (List UInt8) → Program α}
      (hpos : 1 ≤ size) (hsize : size ≤ inn.length)
      (hnext : ∀ k, 1 ≤ k → k ≤ size →
        Exchange fd Q [] (inn.drop k) (next (.done (inn.take k)))) :
      Exchange fd Q [] inn (.call (.recv fd size) next)

namespace Exchange

variable {α β : Type} {fd : Int} {Q : α → Prop} {R : β → Prop}

/-- A program that only writes, followed by any exchange. -/
theorem bind_writes {out out' inn : List UInt8} {p : Program α} {f : α → Program β}
    (h : Exchange fd Q out [] p) (hf : ∀ a, Q a → Exchange fd R out' inn (f a)) :
    Exchange fd R (out ++ out') inn (p.bind f) := by
  generalize hinn : ([] : List UInt8) = nothing at h
  induction h with
  | ret ha => exact hf _ ha
  | @send out _ data next hdata hinto _ ih =>
      refine .send hdata (hinto.trans (List.prefix_append _ _)) fun k hk hlen => ?_
      have hcut : k ≤ out.length := hlen.trans hinto.length_le
      rw [List.drop_append_of_le_length hcut]
      exact ih k hk hlen hinn
  | recv hpos hsize =>
      subst hinn
      simp only [List.length_nil] at hsize
      omega

/-- An exchange followed by a program that only reads. -/
theorem bind_reads {out inn inn' : List UInt8} {p : Program α} {f : α → Program β}
    (h : Exchange fd Q out inn p) (hf : ∀ a, Q a → Exchange fd R [] inn' (f a)) :
    Exchange fd R out (inn ++ inn') (p.bind f) := by
  induction h with
  | ret ha => exact hf _ ha
  | send hdata hinto _ ih => exact .send hdata hinto ih
  | @recv inn size next hpos hsize _ ih =>
      refine .recv hpos (hsize.trans (by simp)) fun k hk hlen => ?_
      have hcut : k ≤ inn.length := hlen.trans hsize
      rw [List.drop_append_of_le_length hcut, List.take_append_of_le_length hcut]
      exact ih k hk hlen

/-- An exchange followed by a program that transfers nothing. -/
theorem bind_done {out inn : List UInt8} {p : Program α} {f : α → Program β}
    (h : Exchange fd Q out inn p) (hf : ∀ a, Q a → Exchange fd R [] [] (f a)) :
    Exchange fd R out inn (p.bind f) := by
  simpa only [List.append_nil] using h.bind_reads hf

/-- What a `::send` of an exchange puts on the stream is the start of what the
program has to write. -/
theorem of_accept {out inn bytes : List UInt8} {k : Nat} {p q : Program α}
    (h : Exchange fd Q out inn p) (hk : p.accept fd k = some (bytes, q)) :
    bytes.length = k ∧ ∃ out', out = bytes ++ out' ∧ Exchange fd Q out' inn q := by
  obtain ⟨data, next, rfl, hpos, hlen, rfl, rfl⟩ := Program.accept_eq_some hk
  cases h with
  | send hdata hinto hnext =>
      refine ⟨List.length_take_of_le hlen, out.drop k, ?_, hnext k hpos hlen⟩
      obtain ⟨tail, rfl⟩ := hinto
      rw [List.drop_append_of_le_length hlen, ← List.append_assoc, List.take_append_drop]

/-- When the stream carries what the program has to read, possibly more and
possibly not all of it yet, a `::recv` of the exchange takes the start of that. -/
theorem of_deliver {out inn available rest rest' : List UInt8} {k : Nat} {p q : Program α}
    (h : Exchange fd Q out inn p) (hk : p.deliver fd k available = some q)
    (hstream : available ++ rest = inn ++ rest') :
    out = [] ∧ 1 ≤ k ∧ k ≤ inn.length ∧ k ≤ available.length ∧
      available.take k = inn.take k ∧ Exchange fd Q [] (inn.drop k) q := by
  obtain ⟨size, next, rfl, hpos, hsize, hlen, rfl⟩ := Program.deliver_eq_some hk
  cases h with
  | recv _ hinn hnext =>
      have htake : available.take k = inn.take k := by
        have hcut := congrArg (List.take k) hstream
        rwa [List.take_append_of_le_length hlen,
          List.take_append_of_le_length (hsize.trans hinn)] at hcut
      exact ⟨rfl, hpos, hsize.trans hinn, hlen, htake, htake ▸ hnext k hpos hsize⟩

/-- A program that has nothing to transfer has returned. -/
theorem eq_ret {p : Program α} (h : Exchange fd Q [] [] p) : ∃ a, p = .ret a ∧ Q a := by
  cases h with
  | ret ha => exact ⟨_, rfl, ha⟩
  | send hdata hinto _ => exact absurd (List.prefix_nil.mp hinto) hdata
  | recv hpos hsize _ =>
      simp only [List.length_nil] at hsize
      omega

/-- A program that has something to write waits in a `::send`. -/
theorem of_out_ne_nil {out inn : List UInt8} {p : Program α} (h : Exchange fd Q out inn p)
    (hout : out ≠ []) : ∃ data next, p = .call (.send fd data) next ∧ data ≠ [] := by
  cases h with
  | ret _ => exact absurd rfl hout
  | @send _ _ data next hdata _ _ => exact ⟨data, next, rfl, hdata⟩
  | recv _ _ _ => exact absurd rfl hout

/-- A program that has returned has nothing left to transfer. -/
theorem of_ret {out inn : List UInt8} {a : α} (h : Exchange fd Q out inn (.ret a)) :
    out = [] ∧ inn = [] ∧ Q a := by
  cases h with
  | ret ha => exact ⟨rfl, rfl, ha⟩

end Exchange
end Lib
end DocaStdexec
