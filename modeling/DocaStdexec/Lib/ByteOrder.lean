import Mathlib.Data.Nat.ModEq
import Mathlib.Tactic.Ring
import Mathlib.Tactic.Positivity

/-!
# Byte order

Integers as they stand in memory.  `littleBytes w n` are the `w` low bytes of
`n`, lowest first; `littleValue` reads such a list back.  An `Endian` host
stores that list as it is or reversed, and `htonl` is the conversion of a
32-bit host integer to network order on that host.
-/

namespace DocaStdexec
namespace Lib

/-- The `w` low bytes of `n`, lowest first. -/
def littleBytes : Nat → Nat → List UInt8
  | 0, _ => []
  | w + 1, n => UInt8.ofNat n :: littleBytes w (n / 256)

/-- The integer with the given bytes, lowest first. -/
def littleValue : List UInt8 → Nat
  | [] => 0
  | b :: bs => b.toNat + 256 * littleValue bs

@[simp] theorem length_littleBytes (w n : Nat) : (littleBytes w n).length = w := by
  induction w generalizing n with
  | zero => rfl
  | succ w ih => simp [littleBytes, ih]

theorem littleValue_littleBytes (w n : Nat) : littleValue (littleBytes w n) = n % 256 ^ w := by
  induction w generalizing n with
  | zero => simp [littleBytes, littleValue, Nat.mod_one]
  | succ w ih =>
      have hbyte : (UInt8.ofNat n).toNat = n % 256 := by simp
      rw [littleBytes, littleValue, ih, hbyte, pow_succ', Nat.mod_mul]

theorem littleValue_lt (bs : List UInt8) : littleValue bs < 256 ^ bs.length := by
  induction bs with
  | nil => simp [littleValue]
  | cons b bs ih =>
      have hb : b.toNat < 256 := b.toNat_lt
      rw [littleValue, List.length_cons, pow_succ']
      omega

theorem littleBytes_littleValue (bs : List UInt8) :
    littleBytes bs.length (littleValue bs) = bs := by
  induction bs with
  | nil => rfl
  | cons b bs ih =>
      have hb : b.toNat < 256 := b.toNat_lt
      have hhigh : (b.toNat + 256 * littleValue bs) / 256 = littleValue bs := by omega
      have hlow : UInt8.ofNat (b.toNat + 256 * littleValue bs) = b := by
        apply UInt8.toNat_inj.mp
        simp
      rw [littleValue, List.length_cons, littleBytes, hhigh, ih, hlow]

/-- Low bytes and high bytes. -/
theorem littleBytes_add (w v n : Nat) :
    littleBytes (w + v) n = littleBytes w n ++ littleBytes v (n / 256 ^ w) := by
  induction w generalizing n with
  | zero => simp [littleBytes]
  | succ w ih =>
      rw [Nat.add_right_comm, littleBytes, littleBytes, ih, List.cons_append,
        Nat.div_div_eq_div_mul, pow_succ']

theorem littleBytes_zero (w : Nat) : littleBytes w 0 = List.replicate w 0 := by
  induction w with
  | zero => rfl
  | succ w ih => rw [littleBytes, Nat.zero_div, ih, List.replicate_succ]; rfl

/-- Only the low bytes of an integer are stored. -/
theorem littleBytes_mod (w n : Nat) : littleBytes w (n % 256 ^ w) = littleBytes w n := by
  have hback := littleBytes_littleValue (littleBytes w n)
  rwa [length_littleBytes, littleValue_littleBytes] at hback

theorem littleValue_append (bs cs : List UInt8) :
    littleValue (bs ++ cs) = littleValue bs + 256 ^ bs.length * littleValue cs := by
  induction bs with
  | nil => simp [littleValue]
  | cons b bs ih =>
      rw [List.cons_append, littleValue, ih, littleValue, List.length_cons]
      ring

theorem littleValue_replicate_zero (w : Nat) : littleValue (List.replicate w 0) = 0 := by
  rw [← littleBytes_zero, littleValue_littleBytes, Nat.zero_mod]

/-- An integer fits its low bytes exactly when its high bytes are zero. -/
theorem littleValue_append_lt_iff (low high : List UInt8) :
    littleValue (low ++ high) < 256 ^ low.length ↔ high = List.replicate high.length 0 := by
  rw [littleValue_append]
  constructor
  · intro hlt
    have hpos : 0 < 256 ^ low.length := by positivity
    have hzero : littleValue high = 0 := by
      -- a high byte that is not zero counts at least `256 ^ low.length`
      by_contra hne
      have hle := Nat.mul_le_mul_left (256 ^ low.length) (Nat.one_le_iff_ne_zero.mpr hne)
      omega
    have hback := littleBytes_littleValue high
    rwa [hzero, littleBytes_zero, eq_comm] at hback
  · intro hhigh
    rw [hhigh, littleValue_replicate_zero, Nat.mul_zero, Nat.add_zero]
    exact littleValue_lt low

/-- The low bytes of an integer that is given by its bytes. -/
theorem littleBytes_littleValue_append (low high : List UInt8) :
    littleBytes low.length (littleValue (low ++ high)) = low := by
  have hback := littleBytes_littleValue (low ++ high)
  rw [List.length_append, littleBytes_add] at hback
  exact (List.append_inj hback (length_littleBytes _ _)).1

/-- The byte order of a host. -/
inductive Endian
  | little
  | big
  deriving DecidableEq

namespace Endian

/-- The memory order of bytes listed from the lowest, and back. -/
def order : Endian → List UInt8 → List UInt8
  | little, bs => bs
  | big, bs => bs.reverse

@[simp] theorem order_order (e : Endian) (bs : List UInt8) : e.order (e.order bs) = bs := by
  cases e <;> simp [order]

@[simp] theorem length_order (e : Endian) (bs : List UInt8) :
    (e.order bs).length = bs.length := by
  cases e <;> simp [order]

/-- A `w`-byte integer as it stands in memory. -/
def toBytes (e : Endian) (w n : Nat) : List UInt8 :=
  e.order (littleBytes w n)

/-- The integer that stands in memory as `bs`. -/
def ofBytes (e : Endian) (bs : List UInt8) : Nat :=
  littleValue (e.order bs)

@[simp] theorem length_toBytes (e : Endian) (w n : Nat) : (e.toBytes w n).length = w := by
  simp [toBytes]

theorem ofBytes_toBytes (e : Endian) (w n : Nat) : e.ofBytes (e.toBytes w n) = n % 256 ^ w := by
  simp [ofBytes, toBytes, littleValue_littleBytes]

theorem toBytes_ofBytes (e : Endian) (bs : List UInt8) :
    e.toBytes bs.length (e.ofBytes bs) = bs := by
  have hbytes := littleBytes_littleValue (e.order bs)
  rw [length_order] at hbytes
  rw [toBytes, ofBytes, hbytes, order_order]

theorem ofBytes_lt (e : Endian) (bs : List UInt8) : e.ofBytes bs < 256 ^ bs.length := by
  simpa [ofBytes] using littleValue_lt (e.order bs)

/-- `htonl`: the 32-bit integer that stands in host memory as the network order
of `hostlong`, whose conversion to 32 bits drops the bits above. -/
def htonl (e : Endian) (hostlong : Nat) : Nat :=
  e.ofBytes (big.toBytes 4 hostlong)

theorem htonl_lt (e : Endian) (n : Nat) : e.htonl n < 2 ^ 32 := by
  have hlt := e.ofBytes_lt (big.toBytes 4 n)
  rw [length_toBytes] at hlt
  exact hlt

/-- `htonl` sees 32 bits. -/
theorem htonl_mul_two_pow (e : Endian) (n : Nat) : e.htonl (2 ^ 32 * n) = 0 := by
  have hbytes : littleBytes 4 (2 ^ 32 * n) = List.replicate 4 0 := by
    rw [← littleBytes_mod, ← littleBytes_zero]
    congr 1
    exact Nat.mul_mod_right _ _
  have horder : e.order (big.order (List.replicate 4 0)) = List.replicate 4 0 := by
    cases e <;> rfl
  rw [htonl, toBytes, hbytes, ofBytes, horder, littleValue_replicate_zero]

/-- A 4-byte integer that a host of the other byte order reads as 8 bytes: its 32
low bits are the sender's high bytes. -/
theorem ofBytes_toBytes_of_ne {e e' : Endian} (he : e ≠ e') {n : Nat} (hn : n < 2 ^ 32) :
    ∃ m, e'.ofBytes (e.toBytes 8 n) = 2 ^ 32 * m := by
  have hbytes : littleBytes 8 n = littleBytes 4 n ++ List.replicate 4 0 := by
    have hhigh : n / 256 ^ 4 = 0 := Nat.div_eq_of_lt hn
    rw [show 8 = 4 + 4 from rfl, littleBytes_add, hhigh, littleBytes_zero]
  have hreversed : e'.order (e.order (littleBytes 8 n)) = (littleBytes 8 n).reverse := by
    cases e <;> cases e' <;> first | rfl | exact absurd rfl he
  refine ⟨littleValue (littleBytes 4 n).reverse, ?_⟩
  rw [ofBytes, toBytes, hreversed, hbytes, List.reverse_append, List.reverse_replicate,
    littleValue_append, littleValue_replicate_zero, List.length_replicate, Nat.zero_add]
  norm_num

/-- `htonl` undoes itself on 32 bits. -/
theorem htonl_htonl (e : Endian) (n : Nat) : e.htonl (e.htonl n) = n % 2 ^ 32 := by
  have hswap : big.toBytes 4 (e.htonl n) = e.toBytes 4 n := by
    have hback := e.toBytes_ofBytes (big.toBytes 4 n)
    rw [length_toBytes] at hback
    cases e with
    | big => rw [htonl, hback]
    | little =>
        have hmem : littleBytes 4 (little.htonl n) = big.toBytes 4 n := hback
        rw [toBytes, hmem, toBytes, order_order]
        rfl
  rw [htonl, hswap, ofBytes_toBytes]
  norm_num

/-- `htonl` of an integer is what its four low bytes, as they stand in memory, are in
network order. -/
theorem htonl_littleValue (e : Endian) {low : List UInt8} (high : List UInt8)
    (hlow : low.length = 4) :
    e.htonl (littleValue (low ++ high)) = big.ofBytes (e.order low) := by
  have hbytes : littleBytes 4 (littleValue (low ++ high)) = low := by
    rw [← hlow]
    exact littleBytes_littleValue_append low high
  rw [htonl, toBytes, hbytes]
  cases e with
  | little => rfl
  | big => rfl

end Endian
end Lib
end DocaStdexec
