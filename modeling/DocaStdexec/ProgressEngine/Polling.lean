import DocaStdexec.ProgressEngine.Teardown

/-!
# Polling while contexts and engines go

The polling thread never meets a destroyed engine or a context whose object has been
deleted, and `join` never returns (`polling_is_safe`).  But `doca_pe_destroy` fails while a
context is connected, and `check_error` then ends the process: where DOCA does what it is
asked to, that happens exactly when somebody else still shares a connected context, or when
it has not been stopped (`alwaysGoing_iff`).
-/

namespace DocaStdexec
namespace Teardown

open Lib

variable {s t : State} {limbo : List Nat} {c i : Nat}

/-! ## What a step preserves -/

section
variable {st : Store Handle} {x y : Handle} {e : ProgressEngine} {limbo' : List Nat}

theorem owns_setEngine {h : Handle} (he : h.engine? = some e) (e' : ProgressEngine) (c : Nat) :
    (h.setEngine e').owns c = e'.ctxs_.count c ∧ (h.setEngine e').engine? = some e' := by
  cases h with
  | pointer p => simp [Handle.engine?] at he
  | engine _ => exact ⟨rfl, rfl⟩
  | peContext _ stop_ returned => exact ⟨rfl, rfl⟩

theorem stopped_setEngine {h : Handle} (e' : ProgressEngine) :
    (h.setEngine e').Stopped ↔ h.Stopped := by
  cases h <;> exact Iff.rfl

/-- Objects change hands: every engine that is held is one that was held. -/
theorem Inv.rehandle (hinv : Inv s limbo) (hshared : Shared st Handle.owns limbo' (Kept s))
    (howned : Balanced st Handle.pe (Open s))
    (hfrom : ∀ j x p, st.live j = some x → x.pe = some p →
      ∃ i y, s.handles.live i = some y ∧ y.pe = some p ∧ ∀ c, y.owns c ≤ x.owns c)
    (hstopped : ∀ j x, st.live j = some x → x.Stopped) :
    Inv { s with handles := st } limbo' := by
  refine ⟨hshared, hinv.once, hinv.native, howned, hinv.peOnce, ?_, hstopped, hinv.fault⟩
  intro j x p z hj hp hz c hc
  obtain ⟨i, y, hi, hy, hle⟩ := hfrom j x p hj hp
  exact Nat.lt_of_lt_of_le (hinv.connected i y p z hi hy hz c hc) (hle c)

/-- An object keeps its engine, and pointers pass between it and limbo. -/
theorem Inv.assign (hinv : Inv s limbo) (hi : s.handles.live i = some y)
    (howns : ∀ c, x.owns c + limbo'.count c = y.owns c + limbo.count c) (hpe : x.pe = y.pe)
    (hle : ∀ p, y.pe = some p → ∀ c, y.owns c ≤ x.owns c) (hstopped : x.Stopped) :
    Inv { s with handles := s.handles.assign i x } limbo' := by
  refine hinv.rehandle (hinv.shared.of_owners_eq fun c => ?_) (hinv.owned.assign_keep hi hpe)
    ?_ (Store.forall_live_assign hinv.stopped hi hstopped)
  · have hcount := Store.tally_assign hi x (Handle.owns c)
    have hpass := howns c
    simp only [owners]
    omega
  · intro j z p hj hp
    rcases Store.live_assign_cases hi hj with ⟨-, rfl⟩ | ⟨-, hj⟩
    · exact ⟨i, y, hi, hpe ▸ hp, hle p (hpe ▸ hp)⟩
    · exact ⟨j, z, hj, hp, fun c => Nat.le_refl _⟩

/-- A pointer is copied. -/
theorem Inv.copy (hinv : Inv s []) {o : Option Nat}
    (hkept : ∀ c, o = some c → Kept s c) :
    Inv { s with handles := s.handles.create (.pointer o) } [] := by
  refine hinv.rehandle
    (hinv.shared.copy (fun c => Handle.owns c (.pointer o)) ?_ ?_)
    (hinv.owned.create_keep rfl) ?_ (Store.forall_live_create hinv.stopped trivial)
  · intro c
    rw [owners, owners, Store.tally_create]
    simp
  · intro c hc
    refine hkept c ?_
    by_contra hne
    simp [Handle.owns, hne] at hc
  · intro j z p hj hp
    rcases Store.live_create_iff.mp hj with hj | ⟨-, rfl⟩
    · exact ⟨j, z, hj, hp, fun c => Nat.le_refl _⟩
    · simp [Handle.pe, Handle.engine?] at hp

/-- A new object takes over all that object `i` has, and leaves `y` there. -/
theorem Inv.move (hinv : Inv s []) {z : Handle} (hi : s.handles.live i = some z)
    (howns : ∀ c, x.owns c = z.owns c) (hpe : x.pe = z.pe) (hnone : y.pe = none)
    (hempty : ∀ c, y.owns c = 0) (hx : x.Stopped) (hy : y.Stopped) :
    Inv { s with handles := (s.handles.create x).assign i y } [] := by
  have hlive := Store.live_create_of_live hi x
  refine hinv.rehandle (hinv.shared.of_owners_eq fun c => ?_)
    (hinv.owned.move_create hi hpe hnone) ?_
    (Store.forall_live_assign (Store.forall_live_create hinv.stopped hx) hlive hy)
  · have hcount := Store.tally_assign hlive y (Handle.owns c)
    rw [Store.tally_create, howns, hempty] at hcount
    simp only [owners]
    omega
  · intro j u p hj hp
    rcases Store.live_assign_cases hlive hj with ⟨-, rfl⟩ | ⟨-, hj⟩
    · rw [hnone] at hp
      cases hp
    · rcases Store.live_create_iff.mp hj with hj | ⟨-, rfl⟩
      · exact ⟨j, u, hj, hp, fun c => Nat.le_refl _⟩
      · exact ⟨i, z, hi, hpe ▸ hp, fun c => Nat.le_of_eq (howns c).symm⟩

theorem Inv.context (hinv : Inv s []) :
    Inv { s with
      contexts := s.contexts ++ [⟨false, 0, false⟩]
      handles := s.handles.create (.pointer (some s.contexts.length)) } [] := by
  refine ⟨(hinv.shared.fresh (r := s.contexts.length) fun c => ?_).congr fun c => ?_, ?_, ?_,
    hinv.owned.create_keep rfl, hinv.peOnce, ?_, Store.forall_live_create hinv.stopped trivial,
    hinv.fault⟩
  · simp [owners, Store.tally_create, Handle.owns, eq_comm]
  · simp only [Kept, Store.getElem?_concat_iff]
    constructor
    · rintro ⟨z, hz | ⟨hc, -⟩, hdeleted⟩
      · exact Or.inl ⟨z, hz, hdeleted⟩
      · exact Or.inr hc
    · rintro (⟨z, hz, hdeleted⟩ | hc)
      · exact ⟨z, Or.inl hz, hdeleted⟩
      · exact ⟨_, Or.inr ⟨hc, rfl⟩, rfl⟩
  · intro c z hz
    rcases Store.getElem?_concat_iff.mp hz with hz | ⟨-, rfl⟩
    · exact hinv.once c z hz
    · exact Nat.zero_le 1
  · intro c z hz hdestroyed
    rcases Store.getElem?_concat_iff.mp hz with hz | ⟨-, rfl⟩
    · exact hinv.native c z hz hdestroyed
    · cases hdestroyed
  · intro j z p u hj hp
    rcases Store.live_create_iff.mp hj with hj | ⟨-, rfl⟩
    · exact hinv.connected j z p u hj hp
    · simp [Handle.pe, Handle.engine?] at hp

/-- An object with a new engine, to which nothing is connected. -/
theorem Inv.createEngine {status : DocaError} {make : ProgressEngine → Handle} (hinv : Inv s [])
    (ht : s.createEngine status make = t) (hmake : ∀ e, (make e).engine? = some e)
    (hstopped : ∀ e, (make e).Stopped) :
    t.fault = false ∧ (t.exited = false → Inv t []) := by
  have hengine := hmake ⟨some s.pes.length, []⟩
  have hpe : (make ⟨some s.pes.length, []⟩).pe = some s.pes.length := by
    rw [Handle.pe, hengine, Option.bind_some]
  have hnew : ¬Open s s.pes.length := by simp [Open]
  rw [State.createEngine] at ht
  split at ht
  · subst ht
    refine ⟨hinv.fault, fun _ => ⟨hinv.shared.of_owners_eq fun c => ?_, hinv.once, hinv.native,
      (hinv.owned.create_take hpe hnew).congr fun p => ?_, ?_, ?_,
      Store.forall_live_create hinv.stopped (hstopped _), hinv.fault⟩⟩
    · rw [owners, owners, Store.tally_create, owns_of_engine hengine]
      rfl
    · simp only [Open, Store.getElem?_concat_iff]
      constructor
      · rintro (⟨z, hz, hdestroys⟩ | hp)
        · exact ⟨z, Or.inl hz, hdestroys⟩
        · exact ⟨_, Or.inr ⟨hp, rfl⟩, rfl⟩
      · rintro ⟨z, hz | ⟨hp, -⟩, hdestroys⟩
        · exact Or.inl ⟨z, hz, hdestroys⟩
        · exact Or.inr hp
    · intro p z hz
      rcases Store.getElem?_concat_iff.mp hz with hz | ⟨-, rfl⟩
      · exact hinv.peOnce p z hz
      · exact Nat.zero_le 1
    · intro j y p z hj hp hz c hc
      rcases Store.getElem?_concat_iff.mp hz with hz | ⟨-, rfl⟩
      · rcases Store.live_create_iff.mp hj with hj | ⟨-, rfl⟩
        · exact hinv.connected j y p z hj hp hz c hc
        · obtain rfl := Option.some.inj (hpe.symm.trans hp)
          simp at hz
      · cases hc
  · subst ht
    exact ⟨hinv.fault, fun hexited => absurd hexited (by simp)⟩

/-- An engine may be connected to a context that it shares. -/
theorem Inv.connect (status : DocaError) (hinv : Inv s []) (hi : s.handles.live i = some y)
    (hc : 0 < y.owns c) : Inv (s.connect y.pe c status) [] := by
  unfold State.connect
  split
  · next p hp hok =>
      refine ⟨hinv.shared, hinv.once, hinv.native, hinv.owned.congr fun q => ?_, ?_, ?_,
        hinv.stopped, hinv.fault⟩
      · simp only [Open, List.getElem?_modify]
        by_cases hpq : p = q
        · simp [hpq]
        · simp [hpq]
      · intro q z hz
        obtain ⟨u, hu, ⟨-, rfl⟩ | ⟨-, rfl⟩⟩ := Store.getElem?_modify_cases hz
        · exact hinv.peOnce q u hu
        · exact hinv.peOnce q z hu
      · intro j x q z hj hq hz d hd
        obtain ⟨u, hu, ⟨rfl, rfl⟩ | ⟨-, rfl⟩⟩ := Store.getElem?_modify_cases hz
        · rcases List.mem_append.mp hd with hd | hd
          · exact hinv.connected j x p u hj hq hu d hd
          · obtain rfl := List.mem_singleton.mp hd
            have hij := hinv.owned.unique hi hj hp hq
            subst hij
            obtain rfl := Option.some.inj (hi.symm.trans hj)
            exact hc
        · exact hinv.connected j x q z hj hq hu d hd
  · exact hinv

/-- The parameter of `connect_ctx` is a copy of pointer `j` or takes it over. -/
theorem Inv.argument (moved : Bool) {j : Nat} (hinv : Inv s [])
    (hj : s.handles.live j = some (.pointer (some c))) :
    Inv { s with handles := if moved then s.handles.assign j (.pointer none) else s.handles }
      [c] := by
  cases moved with
  | true =>
      refine hinv.assign hj (fun d => ?_) rfl ?_ trivial
      · simp [Handle.owns, List.count_singleton]
      · intro p hp
        simp [Handle.pe, Handle.engine?] at hp
  | false =>
      refine ⟨hinv.shared.copy (fun d => [c].count d) (fun d => ?_) (fun d hd => ?_), hinv.once,
        hinv.native, hinv.owned, hinv.peOnce, hinv.connected, hinv.stopped, hinv.fault⟩
      · rfl
      · obtain rfl := List.mem_singleton.mp (List.count_pos_iff.mp hd)
        exact hinv.kept (owns_pos_of_live hj (by simp [Handle.owns]))

/-- `ctxs_.emplace_back`. -/
theorem Inv.emplace (hinv : Inv s [c]) (hi : s.handles.live i = some y)
    (he : y.engine? = some e) :
    Inv { s with handles := s.handles.assign i (y.setEngine ⟨e.pe_, e.ctxs_ ++ [c]⟩) } [] := by
  have howns : ∀ d, (y.setEngine ⟨e.pe_, e.ctxs_ ++ [c]⟩).owns d = y.owns d + [c].count d := by
    intro d
    rw [(owns_setEngine he _ d).1, owns_of_engine he, List.count_append]
  refine hinv.assign hi howns ?_ ?_ ((stopped_setEngine _).mpr (hinv.stopped i y hi))
  · rw [Handle.pe, Handle.pe, (owns_setEngine he _ c).2, he]
    rfl
  · intro p hp d
    rw [howns]
    exact Nat.le_add_right _ _

/-- `Context::start` and `Context::stop`. -/
theorem Inv.setStarted {started : Bool} {status : DocaError} (hinv : Inv s [])
    (ht : s.setStarted c started status = t) :
    t.fault = false ∧ (t.exited = false → Inv t []) := by
  rw [State.setStarted] at ht
  split at ht
  · subst ht
    refine ⟨hinv.fault, fun _ => ⟨hinv.shared.congr fun d => ?_, ?_, ?_, hinv.owned, hinv.peOnce,
      hinv.connected, hinv.stopped, hinv.fault⟩⟩
    · simp only [Kept, List.getElem?_modify]
      by_cases hcd : c = d
      · simp [hcd]
      · simp [hcd]
    · intro d x hx
      obtain ⟨y, hy, ⟨-, rfl⟩ | ⟨-, rfl⟩⟩ := Store.getElem?_modify_cases hx
      · exact hinv.once d y hy
      · exact hinv.once d x hy
    · intro d x hx hdestroyed
      obtain ⟨y, hy, ⟨-, rfl⟩ | ⟨-, rfl⟩⟩ := Store.getElem?_modify_cases hx
      · exact hinv.native d y hy hdestroyed
      · exact hinv.native d x hy hdestroyed
  · subst ht
    exact ⟨hinv.fault, fun hexited => absurd hexited (by simp)⟩

/-- The engine of an object exists, and so do the contexts that are connected to it. -/
theorem Inv.poll_eq {p : Nat} (hinv : Inv s []) (hi : s.handles.live i = some y)
    (hp : y.pe = some p) : s.poll p = s := by
  obtain ⟨x, hx, hdestroys⟩ := hinv.owned.owed_of_live hi hp
  have hconnected : x.connected.any s.gone = false := by
    rw [List.any_eq_false]
    intro c hc
    have hpos := owns_pos_of_live hi (hinv.connected i y p x hi hp hx c hc)
    rw [gone_of_kept (hinv.kept hpos)]
    exact Bool.false_ne_true
  simp [State.poll, hx, hdestroys, hconnected]

theorem Inv.connectCtx {moved : Bool} {j : Nat} {status : DocaError} (hinv : Inv s [])
    (hi : s.handles.live i = some y) (hj : s.handles.live j = some (.pointer (some c)))
    (he : y.engine? = some e) :
    Inv (State.connect
      { s with
        handles := (if moved then s.handles.assign j (.pointer none) else s.handles).assign
          i (y.setEngine ⟨e.pe_, e.ctxs_ ++ [c]⟩) } e.pe_ c status) [] := by
  have hij : i ≠ j := by
    rintro rfl
    obtain rfl := Option.some.inj (hi.symm.trans hj)
    cases he
  have hlive : (if moved then s.handles.assign j (.pointer none) else s.handles).live i =
      some y := by
    split
    · exact Store.live_assign_of_ne hj hi hij _
    · exact hi
  have hemplace := (hinv.argument moved hj).emplace hlive he
  obtain ⟨howns, hengine⟩ := owns_setEngine he ⟨e.pe_, e.ctxs_ ++ [c]⟩ c
  have hpe : (y.setEngine ⟨e.pe_, e.ctxs_ ++ [c]⟩).pe = e.pe_ := by
    rw [Handle.pe, hengine, Option.bind_some]
  have hconnect := hemplace.connect status (Store.live_assign_self hlive _)
    (show 0 < Handle.owns c _ by simp [howns])
  rwa [hpe] at hconnect

/-- What one operation, or one step of a polling thread, preserves. -/
theorem Inv.advance {ev : Event} (hinv : Inv s []) (h : advance s ev = some t) :
    t.fault = false ∧ (t.exited = false → Inv t []) := by
  have keep : Inv t [] → t.fault = false ∧ (t.exited = false → Inv t []) :=
    fun ht => ⟨ht.fault, fun _ => ht⟩
  cases ev with
  | context =>
      obtain rfl := Option.some.inj h
      exact keep hinv.context
  | copy i =>
      simp only [Teardown.advance] at h
      split at h
      · next c hi =>
          obtain rfl := Option.some.inj h
          refine keep (hinv.copy fun d hd => ?_)
          subst hd
          exact hinv.kept (owns_pos_of_live hi (by simp [Handle.owns]))
      · cases h
  | move i =>
      simp only [Teardown.advance] at h
      split at h
      · next c hi =>
          obtain rfl := Option.some.inj h
          refine keep (hinv.move hi (fun _ => rfl) rfl rfl (fun d => ?_) trivial trivial)
          simp [Handle.owns]
      · cases h
  | engine status =>
      exact hinv.createEngine (Option.some.inj h) (fun _ => rfl) fun _ => trivial
  | moveEngine i =>
      simp only [Teardown.advance] at h
      split at h
      · next e hi =>
          obtain rfl := Option.some.inj h
          exact keep (hinv.move hi (fun _ => rfl) rfl rfl (fun _ => rfl) trivial trivial)
      · cases h
  | peContext status =>
      exact hinv.createEngine (Option.some.inj h) (fun _ => rfl)
        fun _ hreturned => nomatch hreturned
  | peContextFrom i =>
      simp only [Teardown.advance] at h
      split at h
      · next e hi =>
          obtain rfl := Option.some.inj h
          exact keep (hinv.move hi (fun _ => rfl) rfl rfl (fun _ => rfl)
            (fun hreturned => nomatch hreturned) trivial)
      · cases h
  | connectCtx i j moved status =>
      simp only [Teardown.advance] at h
      split at h
      · next y c hi hj =>
          have hc := owns_pos_of_live hj (show 0 < Handle.owns c _ by simp [Handle.owns])
          rw [hinv.use_eq hc] at h
          obtain ⟨e, he, rfl⟩ := Option.map_eq_some_iff.mp h
          exact keep (hinv.connectCtx hi hj he)
      · cases h
  | start j status =>
      simp only [Teardown.advance] at h
      split at h
      · next c hj =>
          have hc := owns_pos_of_live hj (show 0 < Handle.owns c _ by simp [Handle.owns])
          rw [hinv.use_eq hc] at h
          exact hinv.setStarted (Option.some.inj h)
      · cases h
  | stop j status =>
      simp only [Teardown.advance] at h
      split at h
      · next c hj =>
          have hc := owns_pos_of_live hj (show 0 < Handle.owns c _ by simp [Handle.owns])
          rw [hinv.use_eq hc] at h
          exact hinv.setStarted (Option.some.inj h)
      · cases h
  | progress i =>
      simp only [Teardown.advance] at h
      split at h
      · next e hi =>
          obtain ⟨p, hp, rfl⟩ := Option.map_eq_some_iff.mp h
          exact keep ((hinv.poll_eq hi hp).symm ▸ hinv)
      · next e stop_ hi =>
          obtain ⟨p, hp, rfl⟩ := Option.map_eq_some_iff.mp h
          exact keep ((hinv.poll_eq hi hp).symm ▸ hinv)
      · cases h
  | readStop i =>
      simp only [Teardown.advance] at h
      split at h
      · next e stop_ hi =>
          obtain rfl := Option.some.inj h
          exact keep (hinv.assign hi (fun _ => rfl) rfl (fun _ _ _ => Nat.le_refl _) id)
      · cases h
  | join i =>
      simp only [Teardown.advance] at h
      split at h
      · next e hi =>
          obtain rfl := Option.some.inj h
          exact keep hinv
      · cases h
  | finish i =>
      simp only [Teardown.advance] at h
      split at h
      · next e returned hi =>
          obtain rfl := Option.some.inj h
          exact keep (hinv.assign hi (fun _ => rfl) rfl (fun _ _ _ => Nat.le_refl _)
            fun _ => rfl)
      · cases h
  | destroy i =>
      simp only [Teardown.advance] at h
      split at h
      · next c hi =>
          obtain rfl := Option.some.inj h
          refine keep (hinv.destroy hi rfl fun d => ?_).release
          cases c with
          | none => rfl
          | some c => simp [Handle.owns, List.count_singleton]
      · next e hi => exact hinv.destroyEngine hi rfl (Option.some.inj h)
      · next e hi => exact hinv.destroyEngine hi rfl (Option.some.inj h)
      · cases h

end

/-! ## Whole runs -/

/-- Nothing is used in vain, and as long as the process goes on everything is kept that has
an owner. -/
def Good (s : State) : Prop := s.fault = false ∧ (s.exited = false → Inv s [])

theorem step_eq {ev : Event} : step s ev = some t ↔ s.exited = false ∧ advance s ev = some t := by
  rw [step]
  cases s.exited with
  | true => simp
  | false => simp

theorem Good.step {ev : Event} (h : Good s) (hstep : step s ev = some t) : Good t := by
  obtain ⟨hexited, hadvance⟩ := step_eq.mp hstep
  exact (h.2 hexited).advance hadvance

theorem good_of_reachable (hs : machine.Reachable s) : Good s :=
  hs.invariant ⟨rfl, fun _ => inv_init⟩ fun _ _ _ h hstep => h.step hstep

/-- A polling thread never meets a destroyed engine, and nobody a context whose object has
been deleted.  As long as the process goes on, the object of a context has been deleted
once when it has no owner and not at all otherwise, an engine has been destroyed once when
nobody holds it and not at all otherwise, and no `join` returns. -/
theorem polling_is_safe (hs : machine.Reachable s) :
    s.fault = false ∧ (s.exited = false →
      (∀ c x, s.contexts[c]? = some x →
        x.deleted = if s.contextOwners c = 0 then 1 else 0) ∧
      (∀ p x, s.pes[p]? = some x → x.destroys ≤ 1 ∧
        (x.destroys = 0 ↔ ∃ i h, s.handles.live i = some h ∧ h.pe = some p)) ∧
      ∀ i, step s (.join i) = none) := by
  obtain ⟨hfault, hinv⟩ := good_of_reachable hs
  refine ⟨hfault, fun hexited => ?_⟩
  have hinv := hinv hexited
  refine ⟨fun c x hx => ?_, fun p x hx => ⟨hinv.peOnce p x hx, ?_, ?_⟩, fun i => ?_⟩
  · have honce := hinv.once c x hx
    have hkept := hinv.shared c
    have hdeleted : Kept s c ↔ x.deleted = 0 := by simp [Kept, hx]
    rw [hdeleted, owners, List.count_nil, Nat.add_zero] at hkept
    rw [State.contextOwners]
    split
    · omega
    · omega
  · intro hzero
    exact hinv.owned.exists_live ⟨x, hx, hzero⟩
  · rintro ⟨i, h, hi, hp⟩
    obtain ⟨y, hy, hzero⟩ := hinv.owned.owed_of_live hi hp
    obtain rfl := Option.some.inj (hx.symm.trans hy)
    exact hzero
  · by_contra hjoin
    obtain ⟨t, ht⟩ := Option.ne_none_iff_exists'.mp hjoin
    obtain ⟨-, hadvance⟩ := step_eq.mp ht
    simp only [advance] at hadvance
    split at hadvance
    · next e hi => exact absurd (hinv.stopped i _ hi rfl) Bool.false_ne_true
    · cases hadvance

/-- A context goes with the engine it is connected to. -/
theorem polling_is_safe_last :
    let es : List Event :=
      [.context, .peContext .success, .connectCtx 1 0 true .success, .progress 1, .finish 1,
        .readStop 1, .destroy 1]
    ∃ s, machine.run State.init es = some s ∧ s.exited = false ∧
      ∀ x, s.contexts[0]? = some x → x.deleted = 1 := by
  intro es
  obtain ⟨s, hrun, hgoing, howners⟩ : ∃ s, machine.run State.init es = some s ∧
      s.exited = false ∧ s.contextOwners 0 = 0 := ⟨_, rfl, rfl, rfl⟩
  refine ⟨s, hrun, hgoing, fun x hx => ?_⟩
  rw [((polling_is_safe ⟨es, hrun⟩).2 hgoing).1 0 x hx, if_pos howners]

/-- DOCA creates, starts and stops what it is asked to, and when an engine is destroyed,
nobody else shares the contexts that are connected to it, and they have been stopped. -/
def Safe (s : State) : Event → Prop
  | .engine status => status = .success
  | .peContext status => status = .success
  | .start _ status => status = .success
  | .stop _ status => status = .success
  | .destroy i => ∀ h p x, s.handles.live i = some h → h.pe = some p → s.pes[p]? = some x →
      ∀ c ∈ x.connected, s.contextOwners c = h.owns c ∧
        ∀ y, s.contexts[c]? = some y → y.started = false
  | _ => True

theorem exited_createEngine {status : DocaError} {make : ProgressEngine → Handle}
    (hgoing : s.exited = false) (ht : s.createEngine status make = t) :
    t.exited = false ↔ status = .success := by
  subst ht
  rw [State.createEngine, checkError]
  cases status with
  | success => simpa using hgoing
  | _ => simp

theorem exited_setStarted {started : Bool} {status : DocaError} (hgoing : s.exited = false)
    (ht : s.setStarted c started status = t) : t.exited = false ↔ status = .success := by
  subst ht
  rw [State.setStarted, checkError]
  cases status with
  | success => simpa using hgoing
  | _ => simp

theorem exited_destroyEngine {h : Handle} {e : ProgressEngine} (hinv : Inv s [])
    (hgoing : s.exited = false) (hi : s.handles.live i = some h) (he : h.engine? = some e)
    (ht : State.destroyEngine { s with handles := s.handles.destroy i } e = t) :
    t.exited = false ↔ Safe s (.destroy i) := by
  obtain ⟨-, hpes, hexited, -⟩ := release_frame { s with handles := s.handles.destroy i } e.ctxs_
  have hpe : h.pe = e.pe_ := by rw [Handle.pe, he, Option.bind_some]
  rw [State.destroyEngine] at ht
  cases hp : e.pe_ with
  | none =>
      rw [hp, State.destroyPe] at ht
      subst ht
      refine iff_of_true (hexited.trans hgoing) fun h' p x hi' hp' => ?_
      obtain rfl := Option.some.inj (hi.symm.trans hi')
      rw [hpe, hp] at hp'
      cases hp'
  | some p =>
      have hidle := idle_release_iff hinv hi he hp
      have hsafe : Safe s (.destroy i) ↔ ∀ x, s.pes[p]? = some x → ∀ c ∈ x.connected,
          s.contextOwners c = h.owns c ∧ ∀ y, s.contexts[c]? = some y → y.started = false := by
        constructor
        · intro hall x
          exact hall h p x hi (hpe.trans hp)
        · intro hall h' p' x hi' hp'
          obtain rfl := Option.some.inj (hi.symm.trans hi')
          obtain rfl := Option.some.inj ((hpe.trans hp).symm.trans hp')
          exact hall x
      rw [hsafe, ← hidle]
      rw [hp, State.destroyPe] at ht
      subst ht
      split
      · next hok => exact iff_of_true (hexited.trans hgoing) hok
      · next hfail => exact iff_of_false (by simp) hfail

/-- What ends the process. -/
theorem exited_advance {ev : Event} (hinv : Inv s []) (hgoing : s.exited = false)
    (h : advance s ev = some t) : t.exited = false ↔ Safe s ev := by
  cases ev with
  | engine status => exact exited_createEngine hgoing (Option.some.inj h)
  | peContext status => exact exited_createEngine hgoing (Option.some.inj h)
  | start j status =>
      simp only [advance] at h
      split at h
      · next c hj => exact exited_setStarted (s := s.use c) hgoing (Option.some.inj h)
      · cases h
  | stop j status =>
      simp only [advance] at h
      split at h
      · next c hj => exact exited_setStarted (s := s.use c) hgoing (Option.some.inj h)
      · cases h
  | destroy i =>
      simp only [advance] at h
      split at h
      · next c hi =>
          obtain rfl := Option.some.inj h
          obtain ⟨-, -, hexited, -⟩ :=
            release_frame { s with handles := s.handles.destroy i } c.toList
          refine iff_of_true (hexited.trans hgoing) fun y p x hi' hp => ?_
          obtain rfl := Option.some.inj (hi.symm.trans hi')
          simp [Handle.pe, Handle.engine?] at hp
      · next e hi => exact exited_destroyEngine hinv hgoing hi rfl (Option.some.inj h)
      · next e hi => exact exited_destroyEngine hinv hgoing hi rfl (Option.some.inj h)
      · cases h
  | connectCtx i j moved status =>
      simp only [advance] at h
      split at h
      · next y c hi hj =>
          obtain ⟨e, -, rfl⟩ := Option.map_eq_some_iff.mp h
          refine iff_of_true ?_ trivial
          unfold State.connect
          split
          · exact hgoing
          · exact hgoing
      · cases h
  | progress i =>
      simp only [advance] at h
      split at h
      · next e hi =>
          obtain ⟨p, -, rfl⟩ := Option.map_eq_some_iff.mp h
          exact iff_of_true hgoing trivial
      · next e stop_ hi =>
          obtain ⟨p, -, rfl⟩ := Option.map_eq_some_iff.mp h
          exact iff_of_true hgoing trivial
      · cases h
  | context =>
      obtain rfl := Option.some.inj h
      exact iff_of_true hgoing trivial
  | copy i | move i | moveEngine i | peContextFrom i | readStop i | join i | finish i =>
      simp only [advance] at h
      split at h
      · obtain rfl := Option.some.inj h
        exact iff_of_true hgoing trivial
      · cases h

/-- The process goes on throughout a run exactly when every operation of it is safe. -/
theorem alwaysGoing_iff {es : List Event} (hrun : machine.run State.init es = some t) :
    machine.Always (fun s => s.exited = false) State.init es ↔
      machine.Guarded Safe State.init es := by
  refine Machine.always_iff_guarded (I := Good) (P := fun s => s.exited = false)
    (fun s ev u hgood hgoing hstep => ⟨hgood.step hstep, ?_⟩) ⟨rfl, fun _ => inv_init⟩ rfl hrun
  exact exited_advance (hgood.2 hgoing) hgoing (step_eq.mp hstep).2

/-- A context is connected and started, and the engine goes while somebody else still
shares the context. -/
theorem alwaysGoing_iff_shared :
    let es : List Event :=
      [.context, .copy 0, .peContext .success, .connectCtx 2 0 true .success,
        .start 1 .success, .progress 2, .finish 2, .readStop 2, .stop 1 .success, .destroy 2]
    ∃ t, machine.run State.init es = some t ∧ t.exited = true ∧
      ¬machine.Guarded Safe State.init es := by
  intro es
  obtain ⟨t, hrun, hexited⟩ : ∃ t, machine.run State.init es = some t ∧ t.exited = true :=
    ⟨_, rfl, rfl⟩
  refine ⟨t, hrun, hexited, fun hguard => ?_⟩
  have hgoing := (alwaysGoing_iff hrun).mpr hguard es t List.prefix_rfl hrun
  simp [hexited] at hgoing

/-- The order in which the client of the loopback test does all this. -/
example :
    (machine.run State.init
      [.peContext .success, .context, .copy 1, .connectCtx 0 2 true .success, .start 1 .success,
        .progress 0, .stop 1 .success, .destroy 1, .finish 0, .readStop 0, .destroy 0]).map
      State.exited = some false := rfl

end Teardown
end DocaStdexec
