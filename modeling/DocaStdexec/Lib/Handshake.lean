import DocaStdexec.Lib.Session

/-!
# A handshake, and then turns

Both ends write first, each then reads what the other one has written, and from there
on they take turns: whatever one of them writes, the other one is reading.  Only the
first part can block, and it does exactly when neither direction holds what is written
into it.  Whether it does is not a matter of the interleaving.
-/

namespace DocaStdexec
namespace Lib
namespace Duplex

open Move

variable {α : Type} {d : Duplex α} {Q : Side → α → Prop} {s t : State α} {n : Side → Nat}

/-- What the ends do when end `a` follows `talk` and the other one answers it. -/
def turns (talk : List Move) : Side → List Move
  | .a => talk
  | .b => talk.map mirror

/-- Both ends write first, then each reads what the other has written, then they take
turns. -/
def handshake (out : Side → List UInt8) (talk : List Move) (i : Side) : List Move :=
  writes (out i) ++ (reads (out i.other) ++ turns talk i)

variable {out : Side → List UInt8} {talk : List Move}

@[simp] theorem length_turns (talk : List Move) (i : Side) :
    (turns talk i).length = talk.length := by
  cases i <;> simp [turns]

@[simp] theorem length_handshake (out : Side → List UInt8) (talk : List Move) (i : Side) :
    (handshake out talk i).length = (out i).length + (out i.other).length + talk.length := by
  simp [handshake, Nat.add_assoc]

theorem turns_other (talk : List Move) (i : Side) :
    turns talk i.other = (turns talk i).map mirror := by
  have hmirror (m : Move) : m.mirror.mirror = m := by cases m <;> rfl
  cases i
  · rfl
  · simp [turns, Side.other, Function.comp_def, hmirror]

theorem written_turns_other (talk : List Move) (i : Side) (r : Nat) :
    written (turns talk) i.other r = taken (turns talk) i r := by
  rw [written, taken, turns_other, ← List.map_take, puts_mirror]

theorem taken_turns_other (talk : List Move) (i : Side) (r : Nat) :
    taken (turns talk) i.other r = written (turns talk) i r := by
  rw [written, taken, turns_other, ← List.map_take, gets_mirror]

theorem handshake_matching (out : Side → List UInt8) (talk : List Move) :
    Matching (handshake out talk) := by
  intro i
  simp [handshake, turns_other]

/-- Where an end stands in the handshake. -/
inductive Stage (out : Side → List UInt8) (talk : List Move) (i : Side) (x : Nat) : Prop
  | writing (hx : x < (out i).length)
  | reading (j : Nat) (hj : j < (out i.other).length) (hx : x = (out i).length + j)
  | talking (r : Nat) (hr : r ≤ talk.length)
      (hx : x = (out i).length + (out i.other).length + r)

theorem stage_of_le {i : Side} {x : Nat} (hx : x ≤ (handshake out talk i).length) :
    Stage out talk i x := by
  rw [length_handshake] at hx
  rcases Nat.lt_or_ge x (out i).length with hw | hw
  · exact .writing hw
  · rcases Nat.lt_or_ge (x - (out i).length) (out i.other).length with hr | hr
    · exact .reading _ hr (by omega)
    · exact .talking (x - (out i).length - (out i.other).length) (by omega) (by omega)

theorem handshake_writing (talk : List Move) {i : Side} {x : Nat} (hx : x < (out i).length) :
    (∃ y, (handshake out talk i)[x]? = some (.put y)) ∧
      written (handshake out talk) i x = x ∧ taken (handshake out talk) i x = 0 := by
  have hinto : writes (out i) <+: (handshake out talk i).drop 0 := List.prefix_append _ _
  have htake := take_add_of_writes hinto hx.le
  rw [Nat.zero_add, List.take_zero, List.nil_append] at htake
  refine ⟨?_, ?_, ?_⟩
  · simpa using getElem?_of_writes hinto hx
  · simp [written, htake, hx.le]
  · simp [taken, htake]

theorem handshake_reading (talk : List Move) {i : Side} {j : Nat} (hj : j < (out i.other).length) :
    (∃ y, (handshake out talk i)[(out i).length + j]? = some (.get y)) ∧
      written (handshake out talk) i ((out i).length + j) = (out i).length ∧
      taken (handshake out talk) i ((out i).length + j) = j := by
  have hfirst : (handshake out talk i).take (out i).length = writes (out i) := by
    rw [handshake, List.take_left' (length_writes _)]
  have hrest : (handshake out talk i).drop (out i).length =
      reads (out i.other) ++ turns talk i := by
    rw [handshake, List.drop_left' (length_writes _)]
  have hinto : reads (out i.other) <+: (handshake out talk i).drop (out i).length :=
    hrest ▸ List.prefix_append _ _
  have htake := take_add_of_reads hinto hj.le
  rw [hfirst] at htake
  refine ⟨getElem?_of_reads hinto hj, ?_, ?_⟩
  · simp [written, htake]
  · simp [taken, htake, hj.le]

theorem handshake_talking (out : Side → List UInt8) (talk : List Move) (i : Side) (r : Nat) :
    (handshake out talk i)[(out i).length + (out i.other).length + r]? =
        (turns talk i)[r]? ∧
      written (handshake out talk) i ((out i).length + (out i.other).length + r) =
        (out i).length + written (turns talk) i r ∧
      taken (handshake out talk) i ((out i).length + (out i.other).length + r) =
        (out i.other).length + taken (turns talk) i r := by
  have hcut : handshake out talk i =
      (writes (out i) ++ reads (out i.other)) ++ turns talk i :=
    (List.append_assoc ..).symm
  have hlen : (writes (out i) ++ reads (out i.other)).length =
      (out i).length + (out i.other).length := by simp
  have htake : (handshake out talk i).take ((out i).length + (out i.other).length + r) =
      (writes (out i) ++ reads (out i.other)) ++ (turns talk i).take r := by
    rw [hcut, ← hlen, List.take_length_add_append]
  refine ⟨?_, ?_, ?_⟩
  · rw [hcut, ← hlen, List.getElem?_append_right (Nat.le_add_right _ _),
      Nat.add_sub_cancel_left]
  · simp [written, htake]
  · simp [taken, htake]

/-- Positions at which both ends of a handshake are blocked. -/
structure Jammed (d : Duplex α) (out : Side → List UInt8) (talk : List Move)
    (n : Side → Nat) : Prop where
  blocked : ∀ i, ¬Ready d (handshake out talk) n i
  lag : ∀ i, taken (handshake out talk) i.other (n i.other) ≤
    written (handshake out talk) i (n i)

/-- An end that talks has taken all that the other one writes first, so the other
one talks too. -/
theorem Jammed.other_talking (h : Jammed d out talk n) {i : Side} {r : Nat}
    (hi : n i = (out i).length + (out i.other).length + r)
    (hstage : Stage out talk i.other (n i.other)) :
    ∃ r' ≤ talk.length,
      n i.other = (out i.other).length + (out i.other.other).length + r' := by
  obtain ⟨-, hwritten, htaken⟩ := handshake_talking out talk i r
  rw [← hi] at hwritten htaken
  cases hstage with
  | writing hx =>
      have hlag := h.lag i.other
      rw [Side.other_other, htaken, (handshake_writing talk hx).2.1] at hlag
      omega
  | reading j hj hx =>
      obtain ⟨⟨y, hmove⟩, -, htaken'⟩ := handshake_reading talk hj
      have hblocked := h.blocked i.other
      rw [Ready, hx, hmove] at hblocked
      simp only [htaken', Side.other_other, hwritten] at hblocked
      rw [Side.other_other] at hj
      omega
  | talking r' hr' hx => exact ⟨r', hr', hx⟩

/-- Two ends that talk are equally far. -/
theorem Jammed.le_of_talking (h : Jammed d out talk n) {i : Side} {r r' : Nat}
    (hi : n i = (out i).length + (out i.other).length + r)
    (hother : n i.other = (out i.other).length + (out i.other.other).length + r')
    (hr' : r' ≤ talk.length) : r' ≤ r := by
  by_contra hlt
  have hr : r < (turns talk i).length := by
    rw [length_turns]
    omega
  obtain ⟨hmove, hwritten, htaken⟩ := handshake_talking out talk i r
  obtain ⟨-, hwritten', htaken'⟩ := handshake_talking out talk i.other r'
  rw [← hi] at hmove hwritten htaken
  rw [← hother] at hwritten' htaken'
  have hsucc : (turns talk i).take (r + 1) = (turns talk i).take r ++ [(turns talk i)[r]] :=
    (List.take_concat_get' _ _ hr).symm
  have hlag := h.lag i
  have hblocked := h.blocked i
  rw [hwritten, htaken', taken_turns_other, Side.other_other] at hlag
  rw [List.getElem?_eq_getElem hr] at hmove
  rw [Ready, hmove] at hblocked
  cases hm : (turns talk i)[r] with
  | put y =>
      -- the other end has taken the byte that this end is about to write
      have hmore : written (turns talk) i (r + 1) = written (turns talk) i r + 1 := by
        rw [written, hsucc, hm]
        simp [puts, written]
      have hle := written_mono (turns talk) i (show r + 1 ≤ r' by omega)
      omega
  | get y =>
      -- the other end has written the byte that this end is about to take
      have hmore : taken (turns talk) i (r + 1) = taken (turns talk) i r + 1 := by
        rw [taken, hsucc, hm]
        simp [gets, taken]
      have hle := taken_mono (turns talk) i (show r + 1 ≤ r' by omega)
      simp only [hm, htaken, hwritten', written_turns_other] at hblocked
      omega

/-- Two ends that talk are at the end. -/
theorem Jammed.eq_of_talking (h : Jammed d out talk n) (hcapacity : ∀ i, 1 ≤ d.capacity i)
    {i : Side} {r : Nat} (hi : n i = (out i).length + (out i.other).length + r)
    (hother : n i.other = (out i.other).length + (out i.other.other).length + r)
    (hr : r ≤ talk.length) : r = talk.length := by
  by_contra hne
  have hlt : r < (turns talk i).length := by
    rw [length_turns]
    omega
  obtain ⟨hmove, hwritten, htaken⟩ := handshake_talking out talk i r
  obtain ⟨hmove', hwritten', htaken'⟩ := handshake_talking out talk i.other r
  rw [← hi] at hmove hwritten htaken
  rw [← hother] at hmove' hwritten' htaken'
  rw [written_turns_other] at hwritten'
  rw [taken_turns_other, Side.other_other] at htaken'
  rw [List.getElem?_eq_getElem hlt] at hmove
  rw [turns_other, List.getElem?_map, List.getElem?_eq_getElem hlt, Option.map_some] at hmove'
  have hblocked := h.blocked i
  have hblocked' := h.blocked i.other
  have hcap := hcapacity i
  have hcap' := hcapacity i.other
  cases hm : (turns talk i)[r] with
  | put y =>
      rw [hm] at hmove
      rw [Ready, hmove] at hblocked
      simp only [hwritten, htaken'] at hblocked
      omega
  | get y =>
      rw [hm] at hmove'
      rw [Ready, hmove'] at hblocked'
      simp only [mirror, Side.other_other, hwritten', htaken] at hblocked'
      omega

/-- Both ends of a jammed handshake wait for room, unless they are at the end. -/
theorem Jammed.overfull (h : Jammed d out talk n) (hcapacity : ∀ i, 1 ≤ d.capacity i)
    (hbound : ∀ i, n i ≤ (handshake out talk i).length) :
    (∀ i, d.capacity i < (out i).length) ∨ ∀ i, n i = (handshake out talk i).length := by
  have hstage (i : Side) := stage_of_le (hbound i)
  by_cases htalk : ∃ i r, r ≤ talk.length ∧ n i = (out i).length + (out i.other).length + r
  · obtain ⟨i, r, hr, hi⟩ := htalk
    obtain ⟨r', hr', hi'⟩ := h.other_talking hi (hstage i.other)
    have hle := h.le_of_talking hi hi' hr'
    have hge := h.le_of_talking hi' ((Side.other_other i).symm ▸ hi) hr
    obtain rfl := le_antisymm hle hge
    have hend := h.eq_of_talking hcapacity hi hi' hr
    refine .inr fun j => ?_
    obtain rfl | rfl := i.eq_or_eq_other j
    · rw [hi, length_handshake, hend]
    · rw [hi', length_handshake, hend]
  · refine .inl fun i => ?_
    have hfirst (i : Side) : n i < (out i).length := by
      cases hstage i with
      | writing hx => exact hx
      | talking r hr hx => exact absurd ⟨i, r, hr, hx⟩ htalk
      | reading j hj hx =>
          -- what this end waits for is what the other one is still writing
          obtain ⟨⟨y, hmove⟩, hwritten, htaken⟩ := handshake_reading talk hj
          have hblocked := h.blocked i
          have hlag := h.lag i.other
          rw [← hx] at hmove hwritten htaken
          rw [Ready, hmove] at hblocked
          rw [Side.other_other] at hlag
          cases hstage i.other with
          | writing hx' =>
              obtain ⟨⟨y', hmove'⟩, hwritten', -⟩ := handshake_writing talk hx'
              have hblocked' := h.blocked i.other
              have hcap := hcapacity i.other
              rw [Ready, hmove'] at hblocked'
              simp only [Side.other_other] at hblocked hblocked' hlag
              omega
          | reading j' hj' hx' =>
              obtain ⟨-, hwritten', -⟩ := handshake_reading talk hj'
              rw [← hx'] at hwritten'
              simp only [hwritten', htaken] at hblocked
              omega
          | talking r hr hx' => exact absurd ⟨i.other, r, hr, hx'⟩ htalk
    obtain ⟨⟨y, hmove⟩, hwritten, -⟩ := handshake_writing talk (hfirst i)
    have htaken := (handshake_writing talk (hfirst i.other)).2.2
    have hblocked := h.blocked i
    rw [Ready, hmove] at hblocked
    simp only [hwritten, htaken] at hblocked
    have := hfirst i
    omega

/-- While both ends have more to write than there is room for, neither gets past the
room. -/
theorem At.step_le_capacity (h : At d (handshake out talk) Q s n)
    (hwide : ∀ i, d.capacity i < (out i).length) (hle : ∀ i, n i ≤ d.capacity i) {ev : Event}
    (hstep : Duplex.step d s ev = some t) :
    ∃ n', At d (handshake out talk) Q t n' ∧ ∀ i, n' i ≤ d.capacity i := by
  obtain ⟨i, k, hk, hat, hready⟩ := h.step (handshake_matching out talk) hstep
  refine ⟨_, hat, fun j => ?_⟩
  obtain rfl | rfl := i.eq_or_eq_other j
  · rw [Function.update_self]
    by_contra hpast
    -- at the last byte that there is room for the end is not ready
    have hj := hready (d.capacity j) (hle j) (not_le.mp hpast)
    obtain ⟨⟨y, hmove⟩, hwritten, -⟩ := handshake_writing talk (hwide j)
    have hother : n j.other < (out j.other).length := (hle j.other).trans_lt (hwide j.other)
    have htaken := (handshake_writing talk hother).2.2
    rw [Ready, Function.update_self, hmove] at hj
    simp only [hwritten, Function.update_of_ne (Side.other_ne j), htaken] at hj
    omega
  · simpa using hle i.other

section Outcome

variable (hcapacity : ∀ i, 1 ≤ d.capacity i)
  (hprogram : ∀ i, Follows (d.fd i) (Q i) (handshake out talk i) (d.program i))

include hcapacity hprogram

/-- Where nothing more can happen, both ends wait for room or both have returned. -/
theorem overfull_or_returned (hs : (machine d).Reachable s) (hsettled : Settled d s) :
    (∀ i, d.capacity i < (out i).length) ∨ ∀ i, ∃ r, s.program i = .ret r := by
  obtain ⟨n, h⟩ := at_of_reachable hprogram (handshake_matching out talk) hs
  have hjammed : Jammed d out talk n :=
    ⟨fun i hready => h.not_settled hready hsettled, h.taken_le⟩
  exact (hjammed.overfull hcapacity h.bound).imp_right fun hend i =>
    (h.returned_iff i).mpr (hend i)

omit hcapacity in
/-- If neither direction holds what is written into it first, neither end ever
returns. -/
theorem not_returned_of_overfull (hwide : ∀ i, d.capacity i < (out i).length)
    (hs : (machine d).Reachable s) (i : Side) (r : α) : s.program i ≠ .ret r := by
  obtain ⟨n, h, hle⟩ : ∃ n, At d (handshake out talk) Q s n ∧ ∀ i, n i ≤ d.capacity i :=
    hs.invariant (I := fun s => ∃ n, At d (handshake out talk) Q s n ∧ ∀ i, n i ≤ d.capacity i)
      ⟨_, inv_at_init hprogram, fun _ => Nat.zero_le _⟩
      fun _ _ _ ⟨_, h, hle⟩ hstep => h.step_le_capacity hwide hle hstep
  intro hret
  have hend := (h.returned_iff i).mp ⟨r, hret⟩
  have hroom := hle i
  have := hwide i
  rw [length_handshake] at hend
  omega

/-- Every run ends: with both ends returned, or with neither.  Which of the two is a
matter of the capacities, not of the run. -/
theorem handshake_outcome {es : List Event} (hrun : (machine d).run (State.init d) es = some s) :
    es.length ≤ 2 * ((out .a).length + (out .b).length + talk.length) ∧
      (Settled d s → ((∀ i, ∃ r, s.program i = .ret r) ↔
        ¬∀ i, d.capacity i < (out i).length)) := by
  have hs : (machine d).Reachable s := ⟨es, hrun⟩
  obtain ⟨n, h⟩ := at_of_reachable hprogram (handshake_matching out talk) hs
  constructor
  · have hlen := length_run_le hprogram (handshake_matching out talk) hrun h
    have ha := h.bound .a
    have hb := h.bound .b
    rw [length_handshake] at ha hb
    simp only [Side.other] at ha hb
    omega
  · intro hsettled
    constructor
    · intro hret hwide
      obtain ⟨r, hr⟩ := hret .a
      exact not_returned_of_overfull hprogram hwide hs .a r hr
    · exact (overfull_or_returned hcapacity hprogram hs hsettled).resolve_left

end Outcome

end Duplex
end Lib
end DocaStdexec
