import DocaStdexec.Common.CheckError
import DocaStdexec.Lib.Play
import Mathlib.Data.Nat.Find

/-!
# Opening a device by its name

`Device::open_from_pci` and `open_from_ib_name` ask DOCA for the list of devices and open
the first one whose name is the one that is asked for.  The name is read into a local array
which is not initialised, and the status of that call is not looked at: for a device whose
name DOCA does not tell, `strcmp` reads whatever the memory holds.
-/

namespace DocaStdexec
namespace Device

open Lib

/-- What a device is looked up by. -/
inductive Field
  | pciAddr
  | ibdevName
  deriving DecidableEq

/-- A `doca_devinfo` and a `doca_dev` are numbers. -/
inductive Call
  | createList
  /-- `doca_devinfo_get_pci_addr_str` or `doca_devinfo_get_ibdev_name`. -/
  | getStr (field : Field) (devinfo : Nat)
  | openDev (devinfo : Nat)
  | destroyList
  deriving DecidableEq

@[reducible] def Call.Answer : Call → Type
  | .createList => Except DocaError (List Nat)
  | .getStr _ _ => Except DocaError (List UInt8)
  | .openDev _ => Except DocaError Nat
  | .destroyList => Unit

abbrev Program := Resumption Call.Answer

inductive Outcome
  | opened (dev : Nat)
  /-- `exit(1)` after this message. -/
  | exited (msg : String)

/-- The bytes of a C string that starts here. -/
def cstr (mem : List UInt8) : List UInt8 := mem.takeWhile (· ≠ 0)

/-- The memory from the array on, after the name has been written to it. -/
def written (mem : List UInt8) : Except DocaError (List UInt8) → List UInt8
  | .ok str => str ++ 0 :: mem.drop (str.length + 1)
  | .error _ => mem

/-- The criteria of `open_from_pci` and `open_from_ib_name`; before iteration `i` the memory
of the local array is `mem i`. -/
def named (field : Field) (mem : Nat → List UInt8) (name : List UInt8) (i devinfo : Nat) :
    Program Bool :=
  .call (.getStr field devinfo) fun r => .ret (cstr (written (mem i) r) = cstr name)

/-- The body of the loop of `open_from_criteria` once the criteria hold. -/
def openFound (devinfo : Nat) : Program Outcome :=
  .call (.openDev devinfo) fun
    | .ok dev => .call .destroyList fun _ => .ret (.opened dev)
    | .error _ => .ret (.exited "Failed to open device from devinfo: %d\n")

/-- The loop of `open_from_criteria` from index `i` on, and what follows it. -/
def scan (criteria : Nat → Nat → Program Bool) : Nat → List Nat → Program Outcome
  | _, [] => .call .destroyList fun _ => .ret (.exited "No device found with criteria\n")
  | i, devinfo :: devinfos =>
      (criteria i devinfo).bind fun found =>
        if found then openFound devinfo else scan criteria (i + 1) devinfos

def openFromCriteria (criteria : Nat → Nat → Program Bool) : Program Outcome :=
  .call .createList fun
    | .ok devinfos => scan criteria 0 devinfos
    | .error _ => .ret (.exited "Failed to create device info list: %d\n")

def openBy (field : Field) (mem : Nat → List UInt8) (name : List UInt8) : Program Outcome :=
  openFromCriteria (named field mem name)

def openFromPci (mem : Nat → List UInt8) (pciAddr : List UInt8) : Program Outcome :=
  openBy .pciAddr mem pciAddr

def openFromIbName (mem : Nat → List UInt8) (ibName : List UInt8) : Program Outcome :=
  openBy .ibdevName mem ibName

section

variable {env : (op : Call) → op.Answer} {field : Field} {mem : Nat → List UInt8}
  {name : List UInt8} {devinfos : List Nat}

/-- What `strcmp` says about the device of iteration `i`. -/
def found (env : (op : Call) → op.Answer) (field : Field) (mem : Nat → List UInt8)
    (name : List UInt8) (i devinfo : Nat) : Bool :=
  cstr (written (mem i) (env (.getStr field devinfo))) = cstr name

theorem cstr_append_zero (str rest : List UInt8) : cstr (str ++ 0 :: rest) = cstr str := by
  induction str with
  | nil => rfl
  | cons b str ih =>
      by_cases hb : b = 0
      · simp [cstr, hb]
      · simpa [cstr, hb] using ih

/-- A name that DOCA tells hides what the memory held. -/
theorem found_of_ok {i devinfo : Nat} {str : List UInt8}
    (htold : env (.getStr field devinfo) = .ok str) :
    found env field mem name i devinfo = true ↔ cstr str = cstr name := by
  rw [found, htold, written, cstr_append_zero, decide_eq_true_iff]

theorem play_named (i devinfo : Nat) :
    (named field mem name i devinfo).play env =
      ([.getStr field devinfo], found env field mem name i devinfo) := rfl

/-- The first device that is found is opened. -/
theorem play_scan_of_found {i k devinfo : Nat} (hk : devinfos[k]? = some devinfo)
    (hfound : found env field mem name (i + k) devinfo = true)
    (hbefore : ∀ j < k, ∀ d, devinfos[j]? = some d →
      found env field mem name (i + j) d = false) :
    (scan (named field mem name) i devinfos).play env =
      ((devinfos.take (k + 1)).map (.getStr field) ++ ((openFound devinfo).play env).1,
        ((openFound devinfo).play env).2) := by
  induction devinfos generalizing i k with
  | nil => simp at hk
  | cons d devinfos ih =>
      rw [scan, Resumption.play_bind, play_named]
      cases k with
      | zero =>
          obtain rfl : d = devinfo := by simpa using hk
          rw [Nat.add_zero] at hfound
          simp [hfound]
      | succ k =>
          have hfirst := hbefore 0 (Nat.succ_pos k) d rfl
          rw [Nat.add_zero] at hfirst
          have hrest := ih (i := i + 1) hk (by rwa [Nat.add_right_comm, Nat.add_assoc])
            fun j hj d' hd' => by
              have hlater := hbefore (j + 1) (Nat.succ_lt_succ hj) d' hd'
              rwa [Nat.add_right_comm, Nat.add_assoc]
          simp [hfirst, hrest]

/-- Nothing is opened when no device is found. -/
theorem play_scan_of_not_found {i : Nat}
    (hnone : ∀ j d, devinfos[j]? = some d → found env field mem name (i + j) d = false) :
    (scan (named field mem name) i devinfos).play env =
      (devinfos.map (.getStr field) ++ [.destroyList],
        .exited "No device found with criteria\n") := by
  induction devinfos generalizing i with
  | nil => rfl
  | cons d devinfos ih =>
      have hfirst := hnone 0 d rfl
      rw [Nat.add_zero] at hfirst
      have hrest := ih (i := i + 1) fun j d' hd' => by
        have hlater := hnone (j + 1) d' hd'
        rwa [Nat.add_right_comm, Nat.add_assoc]
      rw [scan, Resumption.play_bind, play_named]
      simp [hfirst, hrest]

/-- Device `d` is the first one of the list that is found. -/
def First (env : (op : Call) → op.Answer) (field : Field) (mem : Nat → List UInt8)
    (name : List UInt8) (devinfos : List Nat) (k d : Nat) : Prop :=
  devinfos[k]? = some d ∧ found env field mem name k d = true ∧
    ∀ j < k, ∀ d', devinfos[j]? = some d' → found env field mem name j d' = false

theorem First.unique {k l d e : Nat} (hd : First env field mem name devinfos k d)
    (he : First env field mem name devinfos l e) : k = l ∧ d = e := by
  obtain ⟨hk, hfound, hbefore⟩ := hd
  obtain ⟨hl, hfound', hbefore'⟩ := he
  rcases Nat.lt_trichotomy k l with hlt | rfl | hgt
  · rw [hbefore' k hlt d hk] at hfound
    cases hfound
  · exact ⟨rfl, Option.some.inj (hk.symm.trans hl)⟩
  · rw [hbefore l hgt e hl] at hfound'
    cases hfound'

/-- Either no device is found, or there is a first one. -/
theorem not_found_or_first (env : (op : Call) → op.Answer) (field : Field)
    (mem : Nat → List UInt8) (name : List UInt8) (devinfos : List Nat) :
    (∀ j d, devinfos[j]? = some d → found env field mem name j d = false) ∨
      ∃ k d, First env field mem name devinfos k d := by
  classical
  by_cases hsome : ∃ k d, devinfos[k]? = some d ∧ found env field mem name k d = true
  · obtain ⟨d, hk, hfound⟩ := Nat.find_spec hsome
    refine Or.inr ⟨Nat.find hsome, d, hk, hfound, fun j hj d' hd' => ?_⟩
    have hnot := Nat.find_min hsome hj
    simpa using fun htrue => hnot ⟨d', hd', htrue⟩
  · refine Or.inl fun j d hj => ?_
    simpa using fun htrue => hsome ⟨j, d, hj, htrue⟩

/-- The calls and the outcome, in every environment. -/
theorem play_openBy (env : (op : Call) → op.Answer) (field : Field) (mem : Nat → List UInt8)
    (name : List UInt8) :
    (∃ err msg, env .createList = .error err ∧
      (openBy field mem name).play env = ([.createList], .exited msg)) ∨
    (∃ devinfos msg, env .createList = .ok devinfos ∧
      (∀ k d, ¬First env field mem name devinfos k d) ∧ (openBy field mem name).play env =
        (.createList :: devinfos.map (.getStr field) ++ [.destroyList], .exited msg)) ∨
    ∃ devinfos k d, env .createList = .ok devinfos ∧ First env field mem name devinfos k d ∧
      ((∃ err msg, env (.openDev d) = .error err ∧ (openBy field mem name).play env =
        (.createList :: (devinfos.take (k + 1)).map (.getStr field) ++ [.openDev d],
          .exited msg)) ∨
      ∃ dev, env (.openDev d) = .ok dev ∧ (openBy field mem name).play env =
        (.createList :: (devinfos.take (k + 1)).map (.getStr field) ++
          [.openDev d, .destroyList], .opened dev)) := by
  rw [openBy, openFromCriteria, Resumption.play_call]
  cases hlist : env .createList with
  | error err => exact Or.inl ⟨err, _, rfl, rfl⟩
  | ok devinfos =>
      rcases not_found_or_first env field mem name devinfos with hnone | ⟨k, d, hfirst⟩
      · refine Or.inr (Or.inl
          ⟨devinfos, "No device found with criteria\n", rfl, fun k d hfirst => ?_, ?_⟩)
        · obtain ⟨hk, hfound, -⟩ := hfirst
          rw [hnone k d hk] at hfound
          cases hfound
        · rw [play_scan_of_not_found (by simpa using hnone)]
          rfl
      · obtain ⟨hk, hfound, hbefore⟩ := hfirst
        refine Or.inr (Or.inr ⟨devinfos, k, d, rfl, ⟨hk, hfound, hbefore⟩, ?_⟩)
        rw [play_scan_of_found hk (by simpa using hfound) (by simpa using hbefore), openFound,
          Resumption.play_call]
        cases hopen : env (.openDev d) with
        | error err => exact Or.inl ⟨err, _, rfl, rfl⟩
        | ok dev => exact Or.inr ⟨dev, rfl, rfl⟩

/-- The device that is returned is the first one that is found, and for a device whose name
DOCA tells that means that it has the name.  On returning, the list has been destroyed
once, as the last call, and a process that exits has opened nothing. -/
theorem opened_iff (env : (op : Call) → op.Answer) (field : Field) (mem : Nat → List UInt8)
    (name : List UInt8) :
    (∀ dev, ((openBy field mem name).play env).2 = .opened dev ↔
      ∃ devinfos k d, env .createList = .ok devinfos ∧
        First env field mem name devinfos k d ∧ env (.openDev d) = .ok dev) ∧
    (∀ i d str, env (.getStr field d) = .ok str →
      (found env field mem name i d = true ↔ cstr str = cstr name)) ∧
    (∀ dev, ((openBy field mem name).play env).2 = .opened dev →
      ((openBy field mem name).play env).1.count .destroyList = 1 ∧
        ((openBy field mem name).play env).1.getLast? = some .destroyList) ∧
    ∀ msg, ((openBy field mem name).play env).2 = .exited msg →
      ∀ d, .openDev d ∈ ((openBy field mem name).play env).1 →
        ∃ err, env (.openDev d) = .error err := by
  refine ⟨?_, fun i d str htold => found_of_ok htold, ?_⟩
  · intro dev
    rcases play_openBy env field mem name with ⟨err, msg, hlist, hplay⟩ |
      ⟨devinfos, msg, hlist, hnone, hplay⟩ |
      ⟨devinfos, k, d, hlist, hfirst, ⟨err, msg, hopen, hplay⟩ | ⟨dev', hopen, hplay⟩⟩
    · simp [hplay, hlist]
    · simp [hplay, hlist, hnone]
    · rw [hplay]
      refine iff_of_false (by simp) ?_
      rintro ⟨devinfos', l, e, hlist', he, hopen'⟩
      obtain rfl := Except.ok.inj (hlist.symm.trans hlist')
      obtain ⟨-, rfl⟩ := hfirst.unique he
      rw [hopen] at hopen'
      cases hopen'
    · rw [hplay, Outcome.opened.injEq]
      constructor
      · rintro rfl
        exact ⟨devinfos, k, d, hlist, hfirst, hopen⟩
      · rintro ⟨devinfos', l, e, hlist', he, hopen'⟩
        obtain rfl := Except.ok.inj (hlist.symm.trans hlist')
        obtain ⟨-, rfl⟩ := hfirst.unique he
        exact Except.ok.inj (hopen.symm.trans hopen')
  · rcases play_openBy env field mem name with ⟨err, msg, hlist, hplay⟩ |
      ⟨devinfos, msg, hlist, hnone, hplay⟩ |
      ⟨devinfos, k, d, hlist, hfirst, ⟨err, msg, hopen, hplay⟩ | ⟨dev', hopen, hplay⟩⟩
    · simp [hplay]
    · simp [hplay]
    · rw [hplay]
      refine ⟨fun dev hdev => by simp at hdev, fun msg' _ d' hmem => ?_⟩
      rcases List.mem_append.mp hmem with hprobe | hlast
      · simp [-List.map_take] at hprobe
      · obtain rfl : d' = d := by simpa using hlast
        exact ⟨err, hopen⟩
    · rw [hplay]
      refine ⟨fun dev _ => ⟨?_, ?_⟩, fun msg hexit => by simp at hexit⟩
      · rw [List.cons_append, List.count_cons_of_ne (by simp), List.count_append,
          List.count_eq_zero.mpr (by simp [-List.map_take])]
        rfl
      · exact List.getLast?_eq_some_iff.mpr
          ⟨.createList :: (devinfos.take (k + 1)).map (.getStr field) ++ [.openDev d], by simp⟩

/-- DOCA does not tell the name of device 7, but the array still holds the one that is
asked for. -/
example :
    let env : (op : Call) → op.Answer
      | .createList => .ok [7, 8]
      | .getStr _ d => if d = 7 then .error .notFound else .ok [109, 108, 120]
      | .openDev d => .ok d
      | .destroyList => ()
    ((openFromIbName (fun _ => [109, 108, 120, 0]) [109, 108, 120]).play env).2 = .opened 7 :=
  rfl

end
end Device
end DocaStdexec
