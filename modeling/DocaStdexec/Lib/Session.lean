import DocaStdexec.Lib.Duplex

/-!
# Conversations over one connection

A script says byte by byte what one end of a connection is going to write and to
read.  `Follows` says that a program does what a script says, however the
environment cuts its transfers, and it composes: programs one after the other
follow their scripts one after the other.

Two programs that follow matching scripts stay at positions of these scripts, whatever
the interleaving.  No run goes on for ever (`length_run_le`), and every run goes on until
nothing more can happen (`exists_settled`).
-/

namespace DocaStdexec
namespace Lib

/-- One byte of a conversation, as one end sees it. -/
inductive Move
  | put (x : UInt8)
  | get (x : UInt8)
  deriving DecidableEq

namespace Move

/-- The same byte as the other end sees it. -/
def mirror : Move → Move
  | put x => get x
  | get x => put x

/-- The bytes that a script writes. -/
def puts : List Move → List UInt8
  | [] => []
  | put x :: l => x :: puts l
  | get _ :: l => puts l

/-- The bytes that a script reads. -/
def gets : List Move → List UInt8
  | [] => []
  | put _ :: l => gets l
  | get x :: l => x :: gets l

/-- The script of a program that writes `bytes`. -/
def writes (bytes : List UInt8) : List Move := bytes.map put

/-- The script of a program that reads `bytes`. -/
def reads (bytes : List UInt8) : List Move := bytes.map get

variable {l l' : List Move}

@[simp] theorem length_writes (bytes : List UInt8) : (writes bytes).length = bytes.length :=
  List.length_map _

@[simp] theorem length_reads (bytes : List UInt8) : (reads bytes).length = bytes.length :=
  List.length_map _

@[simp] theorem puts_append (l l' : List Move) : puts (l ++ l') = puts l ++ puts l' := by
  induction l with
  | nil => rfl
  | cons m l ih => cases m <;> simp [puts, ih]

@[simp] theorem gets_append (l l' : List Move) : gets (l ++ l') = gets l ++ gets l' := by
  induction l with
  | nil => rfl
  | cons m l ih => cases m <;> simp [gets, ih]

@[simp] theorem puts_writes (bytes : List UInt8) : puts (writes bytes) = bytes := by
  induction bytes with
  | nil => rfl
  | cons x bytes ih => exact congrArg (x :: ·) ih

@[simp] theorem gets_writes (bytes : List UInt8) : gets (writes bytes) = [] := by
  induction bytes with
  | nil => rfl
  | cons x bytes ih => exact ih

@[simp] theorem puts_reads (bytes : List UInt8) : puts (reads bytes) = [] := by
  induction bytes with
  | nil => rfl
  | cons x bytes ih => exact ih

@[simp] theorem gets_reads (bytes : List UInt8) : gets (reads bytes) = bytes := by
  induction bytes with
  | nil => rfl
  | cons x bytes ih => exact congrArg (x :: ·) ih

@[simp] theorem puts_mirror (l : List Move) : puts (l.map mirror) = gets l := by
  induction l with
  | nil => rfl
  | cons m l ih => cases m <;> simp [puts, gets, mirror, ih]

@[simp] theorem gets_mirror (l : List Move) : gets (l.map mirror) = puts l := by
  induction l with
  | nil => rfl
  | cons m l ih => cases m <;> simp [puts, gets, mirror, ih]

/-- A longer part of a script writes more. -/
theorem puts_take_le {x y : Nat} (h : x ≤ y) : puts (l.take x) <+: puts (l.take y) := by
  obtain ⟨tail, htail⟩ := List.take_prefix_take_left h (l := l)
  rw [← htail, puts_append]
  exact List.prefix_append _ _

theorem gets_take_le {x y : Nat} (h : x ≤ y) : gets (l.take x) <+: gets (l.take y) := by
  obtain ⟨tail, htail⟩ := List.take_prefix_take_left h (l := l)
  rw [← htail, gets_append]
  exact List.prefix_append _ _

/-- Where a script writes some bytes next, the following moves are these. -/
theorem take_add_of_writes {bytes : List UInt8} {n k : Nat} (h : writes bytes <+: l.drop n)
    (hk : k ≤ bytes.length) : l.take (n + k) = l.take n ++ writes (bytes.take k) := by
  obtain ⟨tail, htail⟩ := h
  have hle : k ≤ (writes bytes).length := by simpa using hk
  rw [List.take_add, ← htail, List.take_append_of_le_length hle, writes, writes, List.map_take]

theorem take_add_of_reads {bytes : List UInt8} {n k : Nat} (h : reads bytes <+: l.drop n)
    (hk : k ≤ bytes.length) : l.take (n + k) = l.take n ++ reads (bytes.take k) := by
  obtain ⟨tail, htail⟩ := h
  have hle : k ≤ (reads bytes).length := by simpa using hk
  rw [List.take_add, ← htail, List.take_append_of_le_length hle, reads, reads, List.map_take]

theorem getElem?_of_writes {bytes : List UInt8} {n j : Nat} (h : writes bytes <+: l.drop n)
    (hj : j < bytes.length) : ∃ x, l[n + j]? = some (put x) := by
  obtain ⟨tail, htail⟩ := h
  have hlen : j < (writes bytes).length := by simpa using hj
  refine ⟨bytes[j], ?_⟩
  rw [← List.getElem?_drop, ← htail, List.getElem?_append_left hlen]
  simp [writes, hj]

theorem getElem?_of_reads {bytes : List UInt8} {n j : Nat} (h : reads bytes <+: l.drop n)
    (hj : j < bytes.length) : ∃ x, l[n + j]? = some (get x) := by
  obtain ⟨tail, htail⟩ := h
  have hlen : j < (reads bytes).length := by simpa using hj
  refine ⟨bytes[j], ?_⟩
  rw [← List.getElem?_drop, ← htail, List.getElem?_append_left hlen]
  simp [reads, hj]

end Move

open Move

/-- However its transfers on `fd` are cut, the program makes the moves of the script,
asks for no other, and returns a result in `Q`. -/
inductive Follows {α : Type} (fd : Int) (Q : α → Prop) : List Move → Program α → Prop
  | ret {a : α} (ha : Q a) : Follows fd Q [] (.ret a)
  | send {l : List Move} {data : List UInt8} {next : Transfer Nat → Program α}
      (hdata : data ≠ []) (hinto : writes data <+: l)
      (hnext : ∀ k, 1 ≤ k → k ≤ data.length → Follows fd Q (l.drop k) (next (.done k))) :
      Follows fd Q l (.call (.send fd data) next)
  | recv {l : List Move} {bytes : List UInt8} {next : Transfer (List UInt8) → Program α}
      (hbytes : bytes ≠ []) (hinto : reads bytes <+: l)
      (hnext : ∀ k, 1 ≤ k → k ≤ bytes.length →
        Follows fd Q (l.drop k) (next (.done (bytes.take k)))) :
      Follows fd Q l (.call (.recv fd bytes.length) next)

namespace Follows

variable {α β : Type} {fd : Int} {Q : α → Prop} {R : β → Prop} {l l' : List Move}
  {p q : Program α}

/-- One program after the other follows one script after the other. -/
theorem bind {f : α → Program β} (h : Follows fd Q l p)
    (hf : ∀ a, Q a → Follows fd R l' (f a)) : Follows fd R (l ++ l') (p.bind f) := by
  induction h with
  | ret ha => exact hf _ ha
  | send hdata hinto _ ih =>
      refine .send hdata (hinto.trans (List.prefix_append _ _)) fun k hk hlen => ?_
      have hcut := hinto.length_le
      rw [length_writes] at hcut
      rw [List.drop_append_of_le_length (hlen.trans hcut)]
      exact ih k hk hlen
  | recv hbytes hinto _ ih =>
      refine .recv hbytes (hinto.trans (List.prefix_append _ _)) fun k hk hlen => ?_
      have hcut := hinto.length_le
      rw [length_reads] at hcut
      rw [List.drop_append_of_le_length (hlen.trans hcut)]
      exact ih k hk hlen

/-- A program that writes and then reads. -/
theorem of_exchange {out inn : List UInt8} (h : Exchange fd Q out inn p) :
    Follows fd Q (writes out ++ reads inn) p := by
  induction h with
  | ret ha => exact .ret ha
  | @send out inn data next hdata hinto _ ih =>
      have hwrites : writes data <+: writes out := hinto.map _
      refine .send hdata (hwrites.trans (List.prefix_append _ _)) fun k hk hlen => ?_
      have hcut : k ≤ (writes out).length := by simpa using hlen.trans hinto.length_le
      rw [List.drop_append_of_le_length hcut, writes, ← List.map_drop]
      exact ih k hk hlen
  | @recv inn size next hpos hsize _ ih =>
      have hlen : (inn.take size).length = size := List.length_take_of_le hsize
      have hne : inn.take size ≠ [] := List.length_pos_iff.mp (by omega)
      have hrest (k : Nat) (hk : 0 < k) (hle : k ≤ (inn.take size).length) :
          Follows fd Q ((reads inn).drop k) (next (.done ((inn.take size).take k))) := by
        rw [hlen] at hle
        rw [List.take_take, min_eq_left hle, reads, ← List.map_drop]
        exact ih k hk hle
      have hrec := Follows.recv hne ((List.take_prefix size inn).map _) hrest
      rwa [hlen] at hrec

/-- What a `::send` puts on the stream are the next moves of the script. -/
theorem of_accept {bytes : List UInt8} {k : Nat} (h : Follows fd Q l p)
    (hk : p.accept fd k = some (bytes, q)) :
    1 ≤ k ∧ bytes.length = k ∧ writes bytes <+: l ∧ Follows fd Q (l.drop k) q := by
  obtain ⟨data, next, rfl, hpos, hlen, rfl, rfl⟩ := Program.accept_eq_some hk
  cases h with
  | send hdata hinto hnext =>
      refine ⟨hpos, List.length_take_of_le hlen, ?_, hnext k hpos hlen⟩
      exact ((List.take_prefix k data).map _).trans hinto

/-- When the stream carries the start of what the script reads, a `::recv` takes the
next moves of the script. -/
theorem of_deliver {available : List UInt8} {k : Nat} (h : Follows fd Q l p)
    (hk : p.deliver fd k available = some q) (hstream : available <+: gets l) :
    1 ≤ k ∧ k ≤ available.length ∧ reads (available.take k) <+: l ∧
      Follows fd Q (l.drop k) q := by
  obtain ⟨size, next, rfl, hpos, hsize, hlen, rfl⟩ := Program.deliver_eq_some hk
  cases h with
  | @recv _ bytes _ hbytes hinto hnext =>
      have hgets : bytes <+: gets l := by
        obtain ⟨tail, rfl⟩ := hinto
        simp
      have htake : available.take k = bytes.take k := by
        obtain ⟨rest, hrest⟩ := hstream
        obtain ⟨rest', hrest'⟩ := hgets
        have hcut := congrArg (List.take k) (hrest.trans hrest'.symm)
        rwa [List.take_append_of_le_length hlen, List.take_append_of_le_length hsize] at hcut
      rw [htake]
      exact ⟨hpos, hlen, ((List.take_prefix k bytes).map _).trans hinto, hnext k hpos hsize⟩

/-- A program at the end of its script has returned. -/
theorem eq_ret (h : Follows fd Q [] p) : ∃ a, p = .ret a ∧ Q a := by
  cases h with
  | ret ha => exact ⟨_, rfl, ha⟩
  | send hdata hinto _ => exact absurd (List.map_eq_nil_iff.mp (List.prefix_nil.mp hinto)) hdata
  | recv hbytes hinto _ =>
      exact absurd (List.map_eq_nil_iff.mp (List.prefix_nil.mp hinto)) hbytes

/-- A program that has returned is at the end of its script. -/
theorem of_ret {a : α} (h : Follows fd Q l (.ret a)) : l = [] ∧ Q a := by
  cases h with
  | ret ha => exact ⟨rfl, ha⟩

/-- A program whose script writes next waits in a `::send`. -/
theorem of_put {x : UInt8} (h : Follows fd Q (.put x :: l) p) :
    ∃ data next, p = .call (.send fd data) next ∧ data ≠ [] := by
  cases h with
  | @send _ data next hdata _ _ => exact ⟨data, next, rfl, hdata⟩
  | recv hbytes hinto _ =>
      obtain ⟨b, bytes, rfl⟩ := List.exists_cons_of_ne_nil hbytes
      simp [reads] at hinto

/-- A program whose script reads next waits in a `::recv`. -/
theorem of_get {x : UInt8} (h : Follows fd Q (.get x :: l) p) :
    ∃ size next, p = .call (.recv fd size) next ∧ 1 ≤ size := by
  cases h with
  | send hdata hinto _ =>
      obtain ⟨b, data, rfl⟩ := List.exists_cons_of_ne_nil hdata
      simp [writes] at hinto
  | @recv _ bytes next hbytes _ _ =>
      exact ⟨bytes.length, next, rfl, List.length_pos_iff.mpr hbytes⟩

end Follows

namespace Duplex

variable {α : Type}

/-- Each end stands at a position of its script. -/
structure At (d : Duplex α) (script : Side → List Move) (Q : Side → α → Prop) (s : State α)
    (n : Side → Nat) : Prop where
  follows : ∀ i, Follows (d.fd i) (Q i) ((script i).drop (n i)) (s.program i)
  bound : ∀ i, n i ≤ (script i).length
  consumed : ∀ i, s.consumed i = gets ((script i).take (n i))
  /-- What the other end has taken and what is on the way is what this end has written. -/
  transit : ∀ i, s.consumed i.other ++ s.transit i = puts ((script i).take (n i))
  room : ∀ i, (s.transit i).length ≤ d.capacity i

/-- What each end reads is what the other one writes. -/
def Matching (script : Side → List Move) : Prop := ∀ i, gets (script i) = puts (script i.other)

variable {d : Duplex α} {script : Side → List Move} {Q : Side → α → Prop} {s t : State α}
  {n : Side → Nat} {i : Side}

/-- How many bytes end `i` has written, and read, at position `x`. -/
def written (script : Side → List Move) (i : Side) (x : Nat) : Nat :=
  (puts ((script i).take x)).length

def taken (script : Side → List Move) (i : Side) (x : Nat) : Nat :=
  (gets ((script i).take x)).length

theorem written_mono (script : Side → List Move) (i : Side) {x y : Nat} (h : x ≤ y) :
    written script i x ≤ written script i y := (puts_take_le h).length_le

theorem taken_mono (script : Side → List Move) (i : Side) {x y : Nat} (h : x ≤ y) :
    taken script i x ≤ taken script i y := (gets_take_le h).length_le

/-- End `i` can make its next move: there is room for the byte that it writes, or
the byte that it reads is there. -/
def Ready (d : Duplex α) (script : Side → List Move) (n : Side → Nat) (i : Side) : Prop :=
  match (script i)[n i]? with
  | some (.put _) => written script i (n i) < taken script i.other (n i.other) + d.capacity i
  | some (.get _) => taken script i (n i) < written script i.other (n i.other)
  | none => False

theorem inv_at_init (hprogram : ∀ i, Follows (d.fd i) (Q i) (script i) (d.program i)) :
    At d script Q (State.init d) fun _ => 0 where
  follows i := hprogram i
  bound _ := Nat.zero_le _
  consumed _ := rfl
  transit _ := rfl
  room _ := Nat.zero_le _

/-- What is on the way to an end is the start of what it still reads. -/
theorem At.transit_prefix (h : At d script Q s n) (hmatch : Matching script) (i : Side) :
    s.transit i.other <+: gets ((script i).drop (n i)) := by
  have hall : gets ((script i).take (n i)) ++ gets ((script i).drop (n i)) =
      puts ((script i.other).take (n i.other)) ++ puts ((script i.other).drop (n i.other)) := by
    rw [← gets_append, ← puts_append, List.take_append_drop, List.take_append_drop]
    exact hmatch i
  rw [← h.transit i.other, Side.other_other, h.consumed i, List.append_assoc] at hall
  exact ⟨_, (List.append_cancel_left hall).symm⟩

/-- A `::send` of `k` bytes moves its end `k` positions on. -/
theorem At.send (h : At d script Q s n) {k : Nat} {p : Program α} {bytes : List UInt8}
    (hroom : (s.transit i).length + k ≤ d.capacity i)
    (haccept : (s.program i).accept (d.fd i) k = some (bytes, p)) :
    At d script Q
      { s with
        program := Function.update s.program i p
        transit := Function.update s.transit i (s.transit i ++ bytes) }
      (Function.update n i (n i + k)) := by
  obtain ⟨hpos, hbytes, hinto, hrest⟩ := (h.follows i).of_accept haccept
  have htake := take_add_of_writes hinto hbytes.ge
  rw [List.take_of_length_le hbytes.le] at htake
  have hlen := hinto.length_le
  rw [length_writes, List.length_drop, hbytes] at hlen
  have hbound := h.bound i
  rw [List.drop_drop] at hrest
  refine ⟨fun j => ?_, fun j => ?_, fun j => ?_, fun j => ?_, fun j => ?_⟩ <;>
    obtain rfl | rfl := i.eq_or_eq_other j
  · simpa using hrest
  · simpa using h.follows i.other
  · simpa using (by omega : n j + k ≤ (script j).length)
  · simpa using h.bound i.other
  · simpa [htake] using h.consumed j
  · simpa using h.consumed i.other
  · simp [htake, ← h.transit j]
  · simpa using h.transit i.other
  · simpa [hbytes] using hroom
  · simpa using h.room i.other

/-- A `::recv` of `k` bytes does too. -/
theorem At.recv (h : At d script Q s n) (hmatch : Matching script) {k : Nat} {p : Program α}
    (hdeliver : (s.program i).deliver (d.fd i) k (s.transit i.other) = some p) :
    At d script Q
      { program := Function.update s.program i p
        transit := Function.update s.transit i.other ((s.transit i.other).drop k)
        consumed := Function.update s.consumed i
          (s.consumed i ++ (s.transit i.other).take k) }
      (Function.update n i (n i + k)) := by
  obtain ⟨hpos, hlen, hinto, hrest⟩ :=
    (h.follows i).of_deliver hdeliver (h.transit_prefix hmatch i)
  have hbytes : ((s.transit i.other).take k).length = k := List.length_take_of_le hlen
  have htake := take_add_of_reads hinto hbytes.ge
  rw [List.take_of_length_le hbytes.le] at htake
  have hend := hinto.length_le
  rw [length_reads, List.length_drop, hbytes] at hend
  have hbound := h.bound i
  rw [List.drop_drop] at hrest
  refine ⟨fun j => ?_, fun j => ?_, fun j => ?_, fun j => ?_, fun j => ?_⟩ <;>
    obtain rfl | rfl := i.eq_or_eq_other j
  · simpa using hrest
  · simpa using h.follows i.other
  · simpa using (by omega : n j + k ≤ (script j).length)
  · simpa using h.bound i.other
  · simp [htake, ← h.consumed j]
  · simpa using h.consumed i.other
  · simpa [htake] using h.transit j
  · have htransit := h.transit i.other
    rw [Side.other_other] at htransit
    simp only [Side.other_other, Function.update_self, List.append_assoc,
      List.take_append_drop, htransit, Function.update_of_ne (Side.other_ne i)]
  · simpa using h.room j
  · simpa using (h.room i.other).trans' (Nat.sub_le _ _)

/-- What an end has written is taken or on the way. -/
theorem At.length_transit (h : At d script Q s n) (i : Side) :
    taken script i.other (n i.other) + (s.transit i).length = written script i (n i) := by
  have hlen := congrArg List.length (h.transit i)
  rwa [List.length_append, h.consumed] at hlen

theorem At.taken_le (h : At d script Q s n) (i : Side) :
    taken script i.other (n i.other) ≤ written script i (n i) :=
  Nat.le.intro (h.length_transit i)

theorem At.send_ready (h : At d script Q s n) {k : Nat} {p : Program α} {bytes : List UInt8}
    (hroom : (s.transit i).length + k ≤ d.capacity i)
    (haccept : (s.program i).accept (d.fd i) k = some (bytes, p)) {x : Nat} (hx : n i ≤ x)
    (hxk : x < n i + k) : Ready d script (Function.update n i x) i := by
  obtain ⟨-, hbytes, hinto, -⟩ := (h.follows i).of_accept haccept
  obtain ⟨j, rfl⟩ := Nat.exists_eq_add_of_le hx
  have hj : j < bytes.length := by omega
  obtain ⟨x, hmove⟩ := getElem?_of_writes hinto hj
  have hwritten : written script i (n i + j) = written script i (n i) + j := by
    rw [written, take_add_of_writes hinto hj.le]
    simp [written, hj.le]
  have htransit := h.length_transit i
  simp only [Ready, Function.update_self, hmove, hwritten,
    Function.update_of_ne (Side.other_ne i)]
  omega

theorem At.recv_ready (h : At d script Q s n) (hmatch : Matching script) {k : Nat}
    {p : Program α} (hdeliver : (s.program i).deliver (d.fd i) k (s.transit i.other) = some p)
    {x : Nat} (hx : n i ≤ x) (hxk : x < n i + k) :
    Ready d script (Function.update n i x) i := by
  obtain ⟨-, hlen, hinto, -⟩ := (h.follows i).of_deliver hdeliver (h.transit_prefix hmatch i)
  obtain ⟨j, rfl⟩ := Nat.exists_eq_add_of_le hx
  have hbytes : ((s.transit i.other).take k).length = k := List.length_take_of_le hlen
  have hj : j < ((s.transit i.other).take k).length := by omega
  obtain ⟨x, hmove⟩ := getElem?_of_reads hinto hj
  have htaken : taken script i (n i + j) = taken script i (n i) + j := by
    rw [taken, take_add_of_reads hinto hj.le]
    simp only [gets_append, gets_reads, List.length_append, taken]
    rw [List.length_take_of_le hj.le]
  have htransit := h.length_transit i.other
  rw [Side.other_other] at htransit
  simp only [Ready, Function.update_self, hmove, htaken,
    Function.update_of_ne (Side.other_ne i)]
  omega

/-- A step moves one end on, past positions at each of which it is ready. -/
theorem At.step (h : At d script Q s n) (hmatch : Matching script) {ev : Event}
    (hstep : Duplex.step d s ev = some t) :
    ∃ i k, 1 ≤ k ∧ At d script Q t (Function.update n i (n i + k)) ∧
      ∀ x, n i ≤ x → x < n i + k → Ready d script (Function.update n i x) i := by
  cases ev with
  | send i k =>
      obtain ⟨hroom, hmap⟩ := Option.ite_none_right_eq_some.mp hstep
      obtain ⟨⟨bytes, p⟩, haccept, rfl⟩ := Option.map_eq_some_iff.mp hmap
      exact ⟨i, k, ((h.follows i).of_accept haccept).1, h.send hroom haccept,
        fun x => h.send_ready hroom haccept⟩
  | recv i k =>
      obtain ⟨p, hdeliver, rfl⟩ := Option.map_eq_some_iff.mp hstep
      have hpos := ((h.follows i).of_deliver hdeliver (h.transit_prefix hmatch i)).1
      exact ⟨i, k, hpos, h.recv hmatch hdeliver, fun x => h.recv_ready hmatch hdeliver⟩

/-- Nothing can happen. -/
def Settled (d : Duplex α) (s : State α) : Prop := ∀ ev, Duplex.step d s ev = none

/-- An end that is ready can transfer one byte. -/
theorem At.not_settled (h : At d script Q s n) (hready : Ready d script n i) : ¬Settled d s := by
  intro hsettled
  have hfollows := h.follows i
  unfold Ready at hready
  split at hready
  · next x hmove =>
      obtain ⟨hlt, hx⟩ := List.getElem?_eq_some_iff.mp hmove
      rw [List.drop_eq_getElem_cons hlt, hx] at hfollows
      obtain ⟨data, next, hprogram, hdata⟩ := hfollows.of_put
      have hlen : 1 ≤ data.length := List.length_pos_iff.mpr hdata
      have htransit := h.length_transit i
      have hroom : (s.transit i).length + 1 ≤ d.capacity i := by omega
      have hnone := hsettled (.send i 1)
      simp [Duplex.step, hroom, hprogram, Program.accept, hlen] at hnone
  · next x hmove =>
      obtain ⟨hlt, hx⟩ := List.getElem?_eq_some_iff.mp hmove
      rw [List.drop_eq_getElem_cons hlt, hx] at hfollows
      obtain ⟨size, next, hprogram, hsize⟩ := hfollows.of_get
      have htransit := h.length_transit i.other
      rw [Side.other_other] at htransit
      have hsome : 1 ≤ (s.transit i.other).length := by omega
      have hnone := hsettled (.recv i 1)
      simp [Duplex.step, hprogram, Program.deliver, hsize, hsome] at hnone
  · exact hready

/-- An end has returned exactly when it is at the end of its script. -/
theorem At.returned_iff (h : At d script Q s n) (i : Side) :
    (∃ r, s.program i = .ret r) ↔ n i = (script i).length := by
  have hfollows := h.follows i
  constructor
  · rintro ⟨r, hret⟩
    have hnil := (hret ▸ hfollows).of_ret.1
    exact le_antisymm (h.bound i) (List.drop_eq_nil_iff.mp hnil)
  · intro hn
    rw [hn, List.drop_length] at hfollows
    obtain ⟨r, hret, -⟩ := hfollows.eq_ret
    exact ⟨r, hret⟩

theorem At.of_ret (h : At d script Q s n) {r : α} (hret : s.program i = .ret r) : Q i r :=
  (hret ▸ h.follows i).of_ret.2

/-- An end whose last byte the other one has taken has returned as well. -/
theorem At.at_end_of_taken (h : At d script Q s n) (hmatch : Matching script) {l : List Move}
    {x : UInt8} (hlast : script i = l ++ [.put x])
    (hother : n i.other = (script i.other).length) : n i = (script i).length := by
  by_contra hne
  have hlag := h.taken_le i
  have hlen : n i ≤ l.length := by
    have hbound := h.bound i
    rw [hlast, List.length_append, List.length_singleton] at hbound hne
    omega
  have hwritten : written script i (n i) ≤ (puts l).length := by
    rw [written, hlast, List.take_append_of_le_length hlen]
    obtain ⟨tail, htail⟩ := List.take_prefix (n i) l
    rw [← htail, puts_append, List.take_left' (List.length_take_of_le hlen)]
    exact (List.prefix_append _ _).length_le
  have htaken : taken script i.other (n i.other) = (puts l).length + 1 := by
    rw [taken, hother, List.take_length, hmatch i.other, Side.other_other, hlast]
    simp [puts]
  omega

/-! ## What the interleaving cannot change -/

theorem written_add_taken (script : Side → List Move) (i : Side) {x : Nat}
    (hx : x ≤ (script i).length) : written script i x + taken script i x = x := by
  have hcount (l : List Move) : (puts l).length + (gets l).length = l.length := by
    induction l with
    | nil => rfl
    | cons m l ih => cases m <;> simp [puts, gets] <;> omega
  rw [written, taken, hcount, List.length_take_of_le hx]

/-- The state tells the positions. -/
theorem At.unique {m : Side → Nat} (h : At d script Q s n) (h' : At d script Q s m) : n = m := by
  funext i
  rw [← written_add_taken script i (h.bound i), ← written_add_taken script i (h'.bound i)]
  have hw : written script i (n i) = written script i (m i) := by
    rw [written, written, ← h.transit i, ← h'.transit i]
  have ht : taken script i (n i) = taken script i (m i) := by
    rw [taken, taken, ← h.consumed i, ← h'.consumed i]
  rw [hw, ht]

variable (hprogram : ∀ i, Follows (d.fd i) (Q i) (script i) (d.program i))
  (hmatch : Matching script)

include hprogram hmatch

theorem at_of_reachable (hs : (machine d).Reachable s) : ∃ n, At d script Q s n :=
  hs.invariant (I := fun s => ∃ n, At d script Q s n) ⟨_, inv_at_init hprogram⟩
    fun _ _ _ ⟨_, h⟩ hstep =>
      let ⟨_, _, _, hat, _⟩ := h.step hmatch hstep
      ⟨_, hat⟩

/-- No run makes more steps than there are bytes to transfer. -/
theorem length_run_le {es : List Event} (hrun : (machine d).run (State.init d) es = some s)
    (h : At d script Q s n) : es.length ≤ n .a + n .b := by
  have hsteps : ∀ (es : List Event) (u : State α) (m : Side → Nat), At d script Q u m →
      (machine d).run u es = some s → m .a + m .b + es.length ≤ n .a + n .b := by
    intro es
    induction es with
    | nil =>
        intro u m hu hrun
        obtain rfl : u = s := by simpa using hrun
        rw [hu.unique h]
        rfl
    | cons ev es ih =>
        intro u m hu hrun
        obtain ⟨v, hstep, hrest⟩ := Option.bind_eq_some_iff.mp hrun
        obtain ⟨i, k, hk, hv, -⟩ := hu.step hmatch hstep
        have hmore := ih v _ hv hrest
        rw [List.length_cons]
        cases i
        · rw [Function.update_self, Function.update_of_ne (by decide)] at hmore
          omega
        · rw [Function.update_self, Function.update_of_ne (by decide)] at hmore
          omega
  simpa using hsteps es _ _ (inv_at_init hprogram) hrun

/-- Every run goes on until nothing can happen. -/
theorem exists_settled (hs : (machine d).Reachable s) :
    ∃ es t, (machine d).run s es = some t ∧ Settled d t := by
  obtain ⟨n, h⟩ := at_of_reachable hprogram hmatch hs
  -- induction on the number of moves that are left
  induction hleft : (script .a).length + (script .b).length - (n .a + n .b)
    using Nat.strong_induction_on generalizing s n with
  | _ left ih =>
      by_cases hsettled : Settled d s
      · exact ⟨[], s, rfl, hsettled⟩
      · obtain ⟨ev, hev⟩ := not_forall.mp hsettled
        obtain ⟨u, hstep⟩ := Option.ne_none_iff_exists'.mp hev
        obtain ⟨i, k, hk, hu, -⟩ := h.step hmatch hstep
        have hless : (script .a).length + (script .b).length -
            (Function.update n i (n i + k) .a + Function.update n i (n i + k) .b) < left := by
          have ha := hu.bound .a
          have hb := hu.bound .b
          cases i
          · rw [Function.update_self] at ha ⊢
            rw [Function.update_of_ne (by decide)] at hb ⊢
            omega
          · rw [Function.update_self] at hb ⊢
            rw [Function.update_of_ne (by decide)] at ha ⊢
            omega
        obtain ⟨es, t, hrun, hend⟩ := ih _ hless (hs.step hstep) _ hu rfl
        exact ⟨ev :: es, t, Option.bind_eq_some_iff.mpr ⟨u, hstep, hrun⟩, hend⟩

end Duplex
end Lib
end DocaStdexec
