import DocaStdexec.Buf.Lifecycle

/-!
# How long a free callback lives

`MMap::set_free_callback` registers a pointer to a `FreeCallback` that the object
owns.  The pointer has to be good until the `doca_mmap` is destroyed, which calls
it.  Moves take the `FreeCallback` along with the mmap, and `cleanup` destroys the
mmap first.  `release` frees the `FreeCallback` and leaves the pointer registered on
an mmap that lives on.
-/

namespace DocaStdexec
namespace Lifecycle

open Lib

/-- The `FreeCallback` exists and has not been freed. -/
def Alive (cs : List FreeCallback) (p : Nat) : Prop :=
  ∃ c, cs[p]? = some c ∧ c.freed = false

/-- The cookie of a native, if it has one, points to the callback that was last
given. -/
def Known (cs : List FreeCallback) (x : Native) : Prop :=
  match x.cookie with
  | some p => ∃ c, cs[p]? = some c ∧ x.given = some c.callback
  | none => x.given = none

/-- Every cookie that DOCA may still use points to the `FreeCallback` that was last
given, and pointed to it whenever DOCA used one. -/
structure CallbacksAlive (s : State) : Prop where
  registered : s.exited = false → ∀ (n : Nat) (x : Native), s.natives[n]? = some x →
    x.destroys = 0 → Known s.callbacks x ∧ ∀ p, x.cookie = some p → Alive s.callbacks p
  invoked : ∀ v ∈ s.invocations, ∃ c, v.found = some c ∧ c.freed = false ∧
    v.given = some c.callback

/-- An mmap with a free callback is not released. -/
def Safe (s : State) : Event → Prop
  | .release i => ∀ w, s.wrappers.live i = some w → w.callback = none
  | _ => True

instance (s : State) : DecidablePred (Safe s)
  | .release i =>
      match hi : s.wrappers.live i with
      | some w => decidable_of_iff (w.callback = none) (by simp [Safe, hi])
      | none => .isTrue (by simp [Safe, hi])
  | .mmap | .mmapFromExport | .inventory | .start _ _ | .stop _ | .moveConstruct _
  | .moveAssign _ _ | .setFreeCallback _ _ _ | .destroy _ | .callerDestroy _ => .isTrue trivial

section Callbacks

variable {cs : List FreeCallback} {p q : Nat} {x : Native} {o : Option Nat}

theorem getElem?_freeCallback (cs : List FreeCallback) (q p : Nat) :
    (freeCallback cs (some q))[p]? =
      cs[p]?.map fun c => if q = p then { c with freed := true } else c := by
  rw [freeCallback, List.getElem?_modify]
  cases cs[p]? with
  | none => rfl
  | some c => by_cases hqp : q = p <;> simp [hqp]

theorem alive_freeCallback_some : Alive (freeCallback cs (some q)) p ↔ Alive cs p ∧ p ≠ q := by
  unfold Alive
  rw [getElem?_freeCallback]
  cases cs[p]? with
  | none => simp
  | some c =>
      by_cases hqp : q = p
      · simp [hqp]
      · simp [hqp, Ne.symm hqp]

/-- Freeing never brings a callback back. -/
theorem Alive.of_free (h : Alive (freeCallback cs o) p) : Alive cs p := by
  cases o with
  | none => exact h
  | some q => exact (alive_freeCallback_some.mp h).1

theorem alive_concat {c : FreeCallback} (hc : c.freed = false) :
    Alive (cs ++ [c]) p ↔ Alive cs p ∨ p = cs.length := by
  simp only [Alive, Store.getElem?_concat_iff]
  constructor
  · rintro ⟨d, hd | ⟨hp, -⟩, hfreed⟩
    · exact .inl ⟨d, hd, hfreed⟩
    · exact .inr hp
  · rintro (⟨d, hd, hfreed⟩ | hp)
    · exact ⟨d, .inl hd, hfreed⟩
    · exact ⟨c, .inr ⟨hp, rfl⟩, hc⟩

theorem not_alive_length : ¬Alive cs cs.length := by
  rintro ⟨c, hc, -⟩
  exact absurd (List.getElem?_eq_some_iff.mp hc).1 (lt_irrefl _)

/-- A new callback takes the place of an older one. -/
theorem alive_replace {c : FreeCallback} (hc : c.freed = false) (ho : ∀ q ∈ o, Alive cs q) :
    Alive (freeCallback (cs ++ [c]) o) p ↔ Alive (freeCallback cs o) p ∨ p = cs.length := by
  cases o with
  | none => exact alive_concat hc
  | some q =>
      have hq : cs.length ≠ q := fun hq => not_alive_length (hq ▸ ho q rfl)
      rw [alive_freeCallback_some, alive_freeCallback_some, alive_concat hc]
      constructor
      · rintro ⟨hp | hp, hne⟩
        · exact .inl ⟨hp, hne⟩
        · exact .inr hp
      · rintro (⟨hp, hne⟩ | rfl)
        · exact ⟨.inl hp, hne⟩
        · exact ⟨.inr rfl, hq⟩

theorem Known.free (h : Known cs x) : Known (freeCallback cs o) x := by
  unfold Known at h ⊢
  split
  · next p hp =>
      rw [hp] at h
      obtain ⟨c, hc, hgiven⟩ := h
      cases o with
      | none => exact ⟨c, hc, hgiven⟩
      | some q =>
          refine ⟨if q = p then { c with freed := true } else c, ?_, ?_⟩
          · rw [getElem?_freeCallback, hc, Option.map_some]
          · rw [hgiven]
            split <;> rfl
  · next hp =>
      rw [hp] at h
      exact h

theorem Known.concat (h : Known cs x) (c : FreeCallback) : Known (cs ++ [c]) x := by
  unfold Known at h ⊢
  split
  · next p hp =>
      rw [hp] at h
      obtain ⟨d, hd, hgiven⟩ := h
      exact ⟨d, Store.getElem?_concat_iff.mpr (.inl hd), hgiven⟩
  · next hp =>
      rw [hp] at h
      exact h

end Callbacks

/-- The ledger of the callbacks. -/
structure Kept (ws : Store Wrapper) (ns : List Native) (cs : List FreeCallback) : Prop where
  /-- A callback that is not freed has one owner. -/
  balanced : Balanced ws Wrapper.callback (Alive cs)
  /-- The owner of a native owns what is registered on it. -/
  held : ∀ (i n : Nat) (w : Wrapper) (x : Native), ws.live i = some w → w.handle = some n →
    ns[n]? = some x → x.cookie = w.callback
  empty : ∀ (i : Nat) (w : Wrapper), ws.live i = some w → w.handle = none → w.callback = none
  known : ∀ (n : Nat) (x : Native), ns[n]? = some x → Known cs x
  /-- What was registered on a released native has been freed. -/
  released : ∀ (n p : Nat) (x : Native), ns[n]? = some x → x.released = true →
    x.destroys = 0 → x.cookie = some p → ¬Alive cs p

namespace Kept

variable {ws : Store Wrapper} {ns : List Native} {cs : List FreeCallback} {i j n : Nat}
  {w w' : Wrapper} {x x' : Native}

theorem init : Kept [] [] [] :=
  ⟨.nil (by simp [Alive]), by simp, by simp [Store.live], by simp, by simp⟩

/-- Every native is an older one with the same registration; where it counts as
released, the older one did, or its callback is gone. -/
def Older (ns ns' : List Native) (cs' : List FreeCallback) : Prop :=
  ∀ (m : Nat) (y : Native), ns'[m]? = some y → ∃ z, ns[m]? = some z ∧ z.cookie = y.cookie ∧
    z.given = y.given ∧ (y.released = true → y.destroys = 0 →
      z.released = true ∧ z.destroys = 0 ∨ ∀ p, y.cookie = some p → ¬Alive cs' p)

theorem Older.refl (ns : List Native) (cs' : List FreeCallback) : Older ns ns cs' :=
  fun _ y hy => ⟨y, hy, rfl, rfl, fun hreleased hlive => .inl ⟨hreleased, hlive⟩⟩

theorem Older.set {cs' : List FreeCallback} (hx : ns[n]? = some x) (hcookie : x'.cookie = x.cookie)
    (hgiven : x'.given = x.given)
    (hreleased : x'.released = true → x'.destroys = 0 →
      x.released = true ∧ x.destroys = 0 ∨ ∀ p, x'.cookie = some p → ¬Alive cs' p) :
    Older ns (ns.set n x') cs' := by
  intro m y hy
  rcases Store.getElem?_set_cases hy with ⟨rfl, rfl⟩ | ⟨-, hy⟩
  · exact ⟨x, hx, hcookie.symm, hgiven.symm, hreleased⟩
  · exact Older.refl ns cs' m y hy

theorem Older.retire (ns : List Native) (cs' : List FreeCallback) (o : Option Nat) :
    Older ns (Lifecycle.retire ns o) cs' := by
  cases o with
  | none => exact Older.refl ns cs'
  | some n =>
      cases hx : ns[n]? with
      | none =>
          have hsame : Lifecycle.retire ns (some n) = ns := by
            rw [Lifecycle.retire, List.modify_eq_set_getElem?, hx]
            rfl
          rw [hsame]
          exact Older.refl ns cs'
      | some x =>
          rw [Lifecycle.retire, modify_eq_set hx]
          exact Older.set hx rfl rfl (by simp)

/-- The frame rule: registrations stay as they are, callbacks are at most freed, and
every wrapper has what some wrapper had, or nothing. -/
theorem frame (h : Kept ws ns cs) {ws' : Store Wrapper} {ns' : List Native}
    {cs' : List FreeCallback} (hbalanced : Balanced ws' Wrapper.callback (Alive cs'))
    (hws : ∀ k v, ws'.live k = some v → v.handle = none ∧ v.callback = none ∨
      ∃ k' v', ws.live k' = some v' ∧ v'.handle = v.handle ∧ v'.callback = v.callback)
    (hns : Older ns ns' cs') (hknown : ∀ x, Known cs x → Known cs' x)
    (halive : ∀ p, Alive cs' p → Alive cs p) : Kept ws' ns' cs' := by
  refine ⟨hbalanced, fun k m v y hk hv hy => ?_, fun k v hk hv => ?_, fun m y hy => ?_,
    fun m p y hy hreleased hlive hp => ?_⟩
  · obtain ⟨z, hz, hcookie, -⟩ := hns m y hy
    rcases hws k v hk with ⟨hnone, -⟩ | ⟨k', v', hk', hhandle, hcallback⟩
    · rw [hnone] at hv
      simp at hv
    · rw [← hcookie, ← hcallback]
      exact h.held k' m v' z hk' (hhandle.trans hv) hz
  · rcases hws k v hk with ⟨-, hnone⟩ | ⟨k', v', hk', hhandle, hcallback⟩
    · exact hnone
    · exact hcallback.symm.trans (h.empty k' v' hk' (hhandle.trans hv))
  · obtain ⟨z, hz, hcookie, hgiven, -⟩ := hns m y hy
    have hz' := hknown z (h.known m z hz)
    rwa [Known, hcookie, hgiven] at hz'
  · obtain ⟨z, hz, hcookie, -, hreleased'⟩ := hns m y hy
    rcases hreleased' hreleased hlive with ⟨hz', hlive'⟩ | hgone
    · exact fun hp' => h.released m p z hz hz' hlive' (hcookie.trans hp) (halive p hp')
    · exact hgone p hp

/-- A wrapper lets go of its callback, which is freed. -/
theorem balanced_free (h : Balanced ws Wrapper.callback (Alive cs)) (hi : ws.live i = some w)
    (hw' : w'.callback = none) :
    Balanced (ws.assign i w') Wrapper.callback (Alive (freeCallback cs w.callback)) := by
  cases hw : w.callback with
  | none => exact h.assign_keep hi (hw'.trans hw.symm)
  | some q => exact (h.assign_drop hi hw hw').congr fun r => alive_freeCallback_some.symm

theorem moved_callback (w : Wrapper) : w.moved.callback = none := by cases w <;> rfl

/-- The end of a wrapper's value. -/
theorem finish (h : Kept ws ns cs) (hi : ws.live i = some w) :
    Kept (ws.assign i w.moved) (Lifecycle.retire ns w.handle) (freeCallback cs w.callback) := by
  refine h.frame (balanced_free h.balanced hi (moved_callback w)) (fun k v hk => ?_)
    (Older.retire ns _ w.handle) (fun _ hx => hx.free) fun _ hp => hp.of_free
  rcases Store.live_assign_cases hi hk with ⟨-, rfl⟩ | ⟨-, hk⟩
  · exact .inl ⟨Sound.moved_handle w, moved_callback w⟩
  · exact .inr ⟨k, v, hk, rfl, rfl⟩

theorem restart (h : Kept ws ns cs) (hi : ws.live i = some w) (hw : w.handle = some n)
    (hx : ns[n]? = some x) {b : Bool} (hw' : w'.handle = some n) (hc : w'.callback = w.callback) :
    Kept (ws.assign i w') (ns.set n { x with started := b }) cs := by
  refine h.frame (h.balanced.assign_keep hi hc) (fun k v hk => ?_)
    (Older.set hx rfl rfl fun hreleased hlive => .inl ⟨hreleased, hlive⟩) (fun _ hx => hx)
    fun _ hp => hp
  rcases Store.live_assign_cases hi hk with ⟨-, rfl⟩ | ⟨-, hk⟩
  · exact .inr ⟨i, w, hi, hw.trans hw'.symm, hc.symm⟩
  · exact .inr ⟨k, v, hk, rfl, rfl⟩

theorem moveCreate (h : Kept ws ns cs) (hj : ws.live j = some w) :
    Kept ((ws.create w).assign j w.moved) ns cs := by
  refine h.frame (h.balanced.move_create hj rfl (moved_callback w)) (fun k v hk => ?_)
    (Older.refl ns cs) (fun _ hx => hx) fun _ hp => hp
  rcases Store.live_assign_cases (Store.live_create_of_live hj w) hk with ⟨-, rfl⟩ | ⟨-, hk⟩
  · exact .inl ⟨Sound.moved_handle w, moved_callback w⟩
  · rcases Store.live_create_iff.mp hk with hk | ⟨-, rfl⟩
    · exact .inr ⟨k, v, hk, rfl, rfl⟩
    · exact .inr ⟨j, w, hj, rfl, rfl⟩

theorem moveAssign (h : Kept ws ns cs) (hi : ws.live i = some w') (hj : ws.live j = some w)
    (hij : j ≠ i) (hw' : w'.callback = none) :
    Kept ((ws.assign i w).assign j w.moved) ns cs := by
  have hj' : (ws.assign i w).live j = some w := Store.live_assign_of_ne hi hj hij w
  refine h.frame (h.balanced.move_assign hi hj hij hw' rfl (moved_callback w)) (fun k v hk => ?_)
    (Older.refl ns cs) (fun _ hx => hx) fun _ hp => hp
  rcases Store.live_assign_cases hj' hk with ⟨-, rfl⟩ | ⟨-, hk⟩
  · exact .inl ⟨Sound.moved_handle w, moved_callback w⟩
  · rcases Store.live_assign_cases hi hk with ⟨-, rfl⟩ | ⟨-, hk⟩
    · exact .inr ⟨j, v, hj, rfl, rfl⟩
    · exact .inr ⟨k, v, hk, rfl, rfl⟩

theorem destroy (h : Kept ws ns cs) (hi : ws.live i = some w) (hw : w.callback = none) :
    Kept (ws.destroy i) ns cs := by
  refine h.frame (h.balanced.destroy_keep hi hw) (fun k v hk => ?_) (Older.refl ns cs)
    (fun _ hx => hx) fun _ hp => hp
  rw [Store.live_destroy] at hk
  split at hk
  · simp at hk
  · exact .inr ⟨k, v, hk, rfl, rfl⟩

/-- `release`: what stays registered has been freed. -/
theorem release (h : Kept ws ns cs) (hi : ws.live i = some w) (hw : w.handle = some n)
    (hx : ns[n]? = some x) :
    Kept (ws.assign i w.moved) (ns.set n { x with released := true })
      (freeCallback cs w.callback) := by
  have hcookie := h.held i n w x hi hw hx
  refine h.frame (balanced_free h.balanced hi (moved_callback w)) (fun k v hk => ?_)
    (Older.set hx rfl rfl fun _ _ => .inr fun p hp => ?_) (fun _ hx => hx.free)
    fun _ hp => hp.of_free
  · rcases Store.live_assign_cases hi hk with ⟨-, rfl⟩ | ⟨-, hk⟩
    · exact .inl ⟨Sound.moved_handle w, moved_callback w⟩
    · exact .inr ⟨k, v, hk, rfl, rfl⟩
  · rw [← hcookie, show x.cookie = some p from hp]
    exact fun hp' => (alive_freeCallback_some.mp hp').2 rfl

/-- A new native has no callback. -/
theorem create (h : Kept ws ns cs) {b : Bool} (hs : Sound ws ns)
    (hw : w.handle = some ns.length) (hc : w.callback = none) :
    Kept (ws.create w) (ns ++ [⟨b, 0, false, none, none⟩]) cs := by
  refine ⟨h.balanced.create_keep hc, fun k m v y hk hv hy => ?_, fun k v hk hv => ?_,
    fun m y hy => ?_, fun m p y hy hreleased hlive hp => ?_⟩
  · rcases Store.live_create_iff.mp hk with hk | ⟨-, rfl⟩
    · rcases Store.getElem?_concat_iff.mp hy with hy | ⟨rfl, -⟩
      · exact h.held k m v y hk hv hy
      · obtain ⟨z, hz, -⟩ := hs.balanced.owed_of_live hk hv
        exact absurd (List.getElem?_eq_some_iff.mp hz).1 (lt_irrefl _)
    · obtain rfl := Option.some.inj (hw.symm.trans hv)
      rcases Store.getElem?_concat_iff.mp hy with hy | ⟨-, rfl⟩
      · exact absurd (List.getElem?_eq_some_iff.mp hy).1 (lt_irrefl _)
      · exact hc.symm
  · rcases Store.live_create_iff.mp hk with hk | ⟨-, rfl⟩
    · exact h.empty k v hk hv
    · exact hc
  · rcases Store.getElem?_concat_iff.mp hy with hy | ⟨-, rfl⟩
    · exact h.known m y hy
    · rfl
  · rcases Store.getElem?_concat_iff.mp hy with hy | ⟨-, rfl⟩
    · exact h.released m p y hy hreleased hlive hp
    · simp at hreleased

/-- The registration of a new callback. -/
theorem register (h : Kept ws ns cs) (hs : Sound ws ns) {callback : Nat}
    (hi : ws.live i = some w) (hw : w.handle = some n) (hx : ns[n]? = some x)
    (hw' : w'.handle = some n) (hc : w'.callback = some cs.length) :
    Kept (ws.assign i w')
      (ns.set n { x with cookie := some cs.length, given := some callback })
      (freeCallback (cs ++ [⟨callback, false⟩]) w.callback) := by
  have hold : ∀ q ∈ w.callback, Alive cs q := fun q hq => h.balanced.owed_of_live hi hq
  refine ⟨?_, fun k m v y hk hv hy => ?_, fun k v hk hv => ?_, fun m y hy => ?_,
    fun m p y hy hreleased hlive hp => ?_⟩
  · have hfree := balanced_free h.balanced hi (moved_callback w)
    have hi' := Store.live_assign_self hi w.moved
    have hnew : ¬Alive (freeCallback cs w.callback) cs.length :=
      fun hp => not_alive_length hp.of_free
    have htake := hfree.assign_take hi' (moved_callback w) hc hnew
    rw [Store.assign_assign] at htake
    exact htake.congr fun p => (alive_replace rfl hold).symm
  · rcases Store.live_assign_cases hi hk with ⟨-, rfl⟩ | ⟨hki, hk⟩
    · obtain rfl := Option.some.inj (hw'.symm.trans hv)
      rcases Store.getElem?_set_cases hy with ⟨-, rfl⟩ | ⟨hne, -⟩
      · exact hc.symm
      · exact absurd rfl hne
    · rcases Store.getElem?_set_cases hy with ⟨rfl, -⟩ | ⟨-, hy⟩
      · exact absurd (hs.balanced.unique hi hk hw hv) hki
      · exact h.held k m v y hk hv hy
  · rcases Store.live_assign_cases hi hk with ⟨-, rfl⟩ | ⟨-, hk⟩
    · simp [hw'] at hv
    · exact h.empty k v hk hv
  · rcases Store.getElem?_set_cases hy with ⟨-, rfl⟩ | ⟨-, hy⟩
    · exact Known.free ⟨⟨callback, false⟩, List.getElem?_concat_length, rfl⟩
    · exact ((h.known m y hy).concat _).free
  · rcases Store.getElem?_set_cases hy with ⟨-, rfl⟩ | ⟨-, hy⟩
    · obtain ⟨z, hz, hnot, -⟩ := hs.native hi hw
      obtain rfl := Option.some.inj (hx.symm.trans hz)
      simp [hnot] at hreleased
    · intro hp'
      rcases (alive_concat rfl).mp hp'.of_free with hp' | rfl
      · exact h.released m p y hy hreleased hlive hp hp'
      · have hknown := h.known m y hy
        simp [Known, hp] at hknown

end Kept

section Steps

variable {s t : State} {ev : Event}

theorem Effect.kept (heffect : Effect s ev t) (hs : Sound s.wrappers s.natives)
    (h : Kept s.wrappers s.natives s.callbacks) (ht : t.exited = false) :
    Kept t.wrappers t.natives t.callbacks := by
  cases heffect with
  | create _ hw _ hc => exact h.create hs hw hc
  | same _ => exact h
  | exit _ => simp [State.exit] at ht
  | restart _ hi hw hx hw' _ hc => exact h.restart hi hw hx hw' hc
  | moveConstruct hj => exact h.moveCreate hj
  | @moveAssign i j w other hi hj hij =>
      have hi' := Store.live_assign_self hi w.moved
      have hj' := Store.live_assign_of_ne hi hj hij w.moved
      have hmoved := (h.finish hi).moveAssign hi' hj' hij (Kept.moved_callback w)
      rwa [Store.assign_assign] at hmoved
  | @destroy i w hi =>
      have hi' := Store.live_assign_self hi w.moved
      have hgone := (h.finish hi).destroy hi' (Kept.moved_callback w)
      rwa [Store.destroy_assign] at hgone
  | setFreeCallback ok hi hm hx =>
      obtain rfl : ok = true := by simpa using ht
      exact h.register hs hi hm hx hm rfl
  | @releaseNothing i m hi hm =>
      have hgone := h.finish hi
      rwa [show (Wrapper.mmap m).handle = none from hm] at hgone
  | release hi hm hx => exact h.release hi hm hx
  | @callerDestroy n x hx hreleased hlive =>
      exact h.frame h.balanced (fun k v hk => .inr ⟨k, v, hk, rfl, rfl⟩)
        (Kept.Older.retire _ _ (some n)) (fun _ hx => hx) fun _ hp => hp

/-! ## Who has a cookie -/

/-- Nothing is registered on a native that the caller has to destroy. -/
def Clear (ns : List Native) : Prop :=
  ∀ (n : Nat) (x : Native), ns[n]? = some x → x.released = true → x.destroys = 0 →
    x.cookie = none

theorem Clear.set {ns : List Native} {n : Nat} {x : Native} (h : Clear ns)
    (hx : x.released = true → x.destroys = 0 → x.cookie = none) : Clear (ns.set n x) := by
  intro m y hy
  rcases Store.getElem?_set_cases hy with ⟨-, rfl⟩ | ⟨-, hy⟩
  · exact hx
  · exact h m y hy

theorem Clear.retire {ns : List Native} (h : Clear ns) (o : Option Nat) :
    Clear (retire ns o) := by
  cases o with
  | none => exact h
  | some n =>
      cases hx : ns[n]? with
      | none => rwa [Lifecycle.retire, List.modify_eq_set_getElem?, hx]
      | some x =>
          rw [Lifecycle.retire, modify_eq_set hx]
          exact h.set (by simp)

/-- An owner keeps what is registered on its native, so only a released native can
have a dangling cookie, and it has one whenever it has any. -/
theorem Kept.registered_iff {ws : Store Wrapper} {ns : List Native} {cs : List FreeCallback}
    (h : Kept ws ns cs) (hs : Sound ws ns) :
    (∀ (n : Nat) (x : Native), ns[n]? = some x → x.destroys = 0 →
      Known cs x ∧ ∀ p, x.cookie = some p → Alive cs p) ↔ Clear ns := by
  constructor
  · intro hgood n x hx hreleased hlive
    by_contra hcookie
    obtain ⟨p, hp⟩ := Option.ne_none_iff_exists'.mp hcookie
    exact h.released n p x hx hreleased hlive hp ((hgood n x hx hlive).2 p hp)
  · intro hclear n x hx hlive
    refine ⟨h.known n x hx, fun p hp => ?_⟩
    cases hreleased : x.released with
    | true =>
        rw [hclear n x hx hreleased hlive] at hp
        simp at hp
    | false =>
        obtain ⟨i, w, hi, hw⟩ := hs.balanced.exists_live (r := n) ⟨x, hx, hreleased, hlive⟩
        exact h.balanced.owed_of_live hi ((h.held i n w x hi hw hx).symm.trans hp)

/-- A release is the only step that can leave a cookie behind. -/
theorem Effect.clear_iff (heffect : Effect s ev t) (hs : Sound s.wrappers s.natives)
    (h : Kept s.wrappers s.natives s.callbacks) (hclear : Clear s.natives) :
    Clear t.natives ↔ Safe s ev := by
  have hsafe (hev : ev.isRelease = false) : Safe s ev := by cases ev <;> trivial
  cases heffect with
  | create hev =>
      refine iff_of_true (fun n y hy hreleased => ?_) (hsafe hev)
      rcases Store.getElem?_concat_iff.mp hy with hy | ⟨-, rfl⟩
      · exact hclear n y hy hreleased
      · simp at hreleased
  | same hev => exact iff_of_true hclear (hsafe hev)
  | exit hev => exact iff_of_true hclear (hsafe hev)
  | @restart _ i n w w' x b hev hi hw hx =>
      exact iff_of_true (hclear.set (hclear n x hx)) (hsafe hev)
  | moveConstruct hj => exact iff_of_true hclear trivial
  | moveAssign hi hj hij => exact iff_of_true (hclear.retire _) trivial
  | destroy hi => exact iff_of_true (hclear.retire _) trivial
  | @setFreeCallback i n callback m x ok hi hm hx =>
      refine iff_of_true ?_ trivial
      obtain ⟨z, hz, hnot, -⟩ := hs.native hi hm
      obtain rfl := Option.some.inj (hx.symm.trans hz)
      cases ok with
      | true => exact hclear.set (by simp [hnot])
      | false => exact hclear
  | @releaseNothing i m hi hm =>
      refine iff_of_true hclear fun w hw => ?_
      obtain rfl := Option.some.inj (hi.symm.trans hw)
      exact h.empty i _ hi hm
  | @release i n m x hi hm hx =>
      have hcookie := h.held i n _ x hi hm hx
      obtain ⟨z, hz, -, hlive, -⟩ := hs.native hi hm
      obtain rfl := Option.some.inj (hx.symm.trans hz)
      constructor
      · intro hclear' w hw
        obtain rfl := Option.some.inj (hi.symm.trans hw)
        obtain ⟨hn, -⟩ := List.getElem?_eq_some_iff.mp hx
        rw [← hcookie]
        exact hclear' n { x with released := true } (by simp [hn]) rfl hlive
      · intro hsafe
        exact hclear.set fun _ _ => hcookie.trans (hsafe _ hi)
  | @callerDestroy n x hx hreleased hlive => exact iff_of_true (hclear.retire (some n)) trivial

/-- A release does not end the process. -/
theorem Effect.safe_of_exited (heffect : Effect s ev t) (hrun : s.exited = false)
    (ht : t.exited = true) : Safe s ev := by
  cases heffect with
  | create hev | same hev | exit hev | restart hev => cases ev <;> trivial
  | moveConstruct | moveAssign | destroy | setFreeCallback | callerDestroy => trivial
  | releaseNothing | release => simp [hrun] at ht

/-- DOCA calls a free callback only for a native that was not destroyed before. -/
theorem Effect.invocations (heffect : Effect s ev t) (hs : Sound s.wrappers s.natives) :
    ∃ o, (∀ n ∈ o, ∃ x, s.natives[n]? = some x ∧ x.destroys = 0) ∧
      t.invocations = s.invocations ++ s.invoked o := by
  have hnone {u : State} (hu : u.invocations = s.invocations) :
      ∃ o, (∀ n ∈ o, ∃ x, s.natives[n]? = some x ∧ x.destroys = 0) ∧
        u.invocations = s.invocations ++ s.invoked o :=
    ⟨none, by simp, hu.trans (List.append_nil _).symm⟩
  have hheld {i : Nat} {w : Wrapper} (hi : s.wrappers.live i = some w) (n : Nat)
      (hn : n ∈ w.handle) : ∃ x, s.natives[n]? = some x ∧ x.destroys = 0 := by
    obtain ⟨x, hx, -, hlive, -⟩ := hs.native hi hn
    exact ⟨x, hx, hlive⟩
  cases heffect with
  | @moveAssign i j w other hi hj hij => exact ⟨w.handle, hheld hi, rfl⟩
  | @destroy i w hi => exact ⟨w.handle, hheld hi, rfl⟩
  | @callerDestroy n x hx hreleased hlive =>
      exact ⟨some n, fun m hm => Option.some.inj hm ▸ ⟨x, hx, hlive⟩, rfl⟩
  | create | same | exit | restart | moveConstruct | setFreeCallback | releaseNothing
  | release => exact hnone rfl

/-- A cookie that is good is good when it is used. -/
theorem CallbacksAlive.invoked_of_live (h : CallbacksAlive s) (hrun : s.exited = false)
    {o : Option Nat} (ho : ∀ n ∈ o, ∃ x, s.natives[n]? = some x ∧ x.destroys = 0) :
    ∀ v ∈ s.invoked o, ∃ c, v.found = some c ∧ c.freed = false ∧ v.given = some c.callback := by
  intro v hv
  cases o with
  | none => simp [State.invoked] at hv
  | some n =>
      obtain ⟨x, hx, hlive⟩ := ho n rfl
      obtain ⟨hknown, halive⟩ := h.registered hrun n x hx hlive
      cases hp : x.cookie with
      | none => simp [State.invoked, hx, hp] at hv
      | some p =>
          obtain ⟨c, hc, hfreed⟩ := halive p hp
          simp only [Known, hp, hc, Option.some.injEq, exists_eq_left'] at hknown
          obtain rfl : v = ⟨some c, some c.callback⟩ := by
            simpa [State.invoked, hx, hp, hc, hknown] using hv
          exact ⟨c, rfl, hfreed, rfl⟩

/-- What holds between two operations of a process. -/
def Ordered (s : State) : Prop :=
  Sound s.wrappers s.natives ∧
    (s.exited = false → Kept s.wrappers s.natives s.callbacks)

theorem Ordered.step (h : Ordered s) (hP : CallbacksAlive s) (hstep : step s ev = some t) :
    Ordered t ∧ (CallbacksAlive t ↔ Safe s ev) := by
  obtain ⟨hs, hkept⟩ := h
  obtain ⟨hrun, heffect⟩ := step_effect hs hstep
  have hk := hkept hrun
  have hclear : Clear s.natives := (hk.registered_iff hs).mp (hP.registered hrun)
  have hs' := heffect.sound hs
  refine ⟨⟨hs', heffect.kept hs hk⟩, ?_⟩
  have hiff := heffect.clear_iff hs hk hclear
  have hinvoked : ∀ v ∈ t.invocations, ∃ c, v.found = some c ∧ c.freed = false ∧
      v.given = some c.callback := by
    obtain ⟨o, ho, hsplit⟩ := heffect.invocations hs
    intro v hv
    rw [hsplit, List.mem_append] at hv
    rcases hv with hv | hv
    · exact hP.invoked v hv
    · exact hP.invoked_of_live hrun ho v hv
  constructor
  · intro hP'
    cases ht : t.exited with
    | false =>
        exact hiff.mp (((heffect.kept hs hk ht).registered_iff hs').mp (hP'.registered ht))
    | true => exact heffect.safe_of_exited hrun ht
  · intro hsafe
    refine ⟨fun ht => ?_, hinvoked⟩
    exact ((heffect.kept hs hk ht).registered_iff hs').mpr (hiff.mpr hsafe)

end Steps

/-- The callbacks are alive throughout a run exactly when no mmap is released while it
has one. -/
theorem callbacksAlive_iff_safe {t : State} {es : List Event}
    (hrun : machine.run .init es = some t) :
    machine.Always CallbacksAlive .init es ↔ machine.Guarded Safe .init es := by
  refine Machine.always_iff_guarded (I := Ordered) (fun s ev u h hP hstep => h.step hP hstep)
    ⟨Sound.init, fun _ => Kept.init⟩ ⟨fun _ => ?_, ?_⟩ hrun
  · simp [State.init]
  · simp [State.init]

/-- A callback that is replaced and moves to another object is good until the end. -/
theorem callbacksAlive_iff_safe_moved :
    machine.Always CallbacksAlive .init [.mmap, .setFreeCallback 0 7 true,
      .setFreeCallback 0 8 true, .mmap, .moveAssign 1 0, .destroy 1] :=
  (callbacksAlive_iff_safe (t := ⟨[some (.mmap ⟨none, false, none⟩), none],
    [⟨false, 1, false, some 1, some 8⟩, ⟨false, 1, false, none, none⟩],
    [⟨7, true⟩, ⟨8, true⟩], [], [⟨some ⟨8, false⟩, some 8⟩], false⟩) (by decide)).mpr (by decide)

/-- The caller destroys an mmap that was released with a callback. -/
theorem not_always_callbacksAlive :
    ¬machine.Always CallbacksAlive .init [.mmap, .setFreeCallback 0 7 true, .release 0,
      .callerDestroy 0] := by
  have hrun : machine.run .init [.mmap, .setFreeCallback 0 7 true, .release 0, .callerDestroy 0] =
      some ⟨[some (.mmap ⟨none, false, none⟩)], [⟨false, 1, true, some 0, some 7⟩], [⟨7, true⟩],
        [], [⟨some ⟨7, true⟩, some 7⟩], false⟩ := by decide
  refine Machine.not_always_of_run hrun fun h => ?_
  obtain ⟨c, hfound, hfreed, -⟩ := h.invoked ⟨some ⟨7, true⟩, some 7⟩ (by simp)
  obtain rfl := Option.some.inj hfound
  simp at hfreed

end Lifecycle
end DocaStdexec
