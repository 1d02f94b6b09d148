import Mathlib.Data.List.Count
import UsbipIce.Utils.FirmwareFlasher

/-!
# Accounting for the queued devices

Every section of the flasher moves serials from one place to another: from the
queue to the failed ones or the completed ones, and from the failed ones to a
list returned. So whatever the order of the sections, each queued serial is in
one place (`UsbipIce.Utils.FirmwareFlasher.Inv`).

What the order decides is whether a handler raises. `handleDone` and
`handleFailed` pop a serial that was in the queue when its event was looked up;
where a timer or `stopFlasher` has come between, it is not there any more, and
the handler raises a `KeyError`
(`UsbipIce.Utils.FirmwareFlasher.accounting_iff`).
-/

namespace UsbipIce.Utils.FirmwareFlasher

open Lib

/-! ### Places -/

/-- The serials completed by `handleDone`. -/
def completed (s : FirmwareFlasher) : List String := s.history.flashed.map Prod.fst

/-- Where queued serials are, each place after the other: the queue, the failed
ones, the lists returned, and the completed ones. -/
def places (s : FirmwareFlasher) : List String :=
  s.remainingSerials.keys ++ s.failedSerials ++ s.history.returned.flatten ++ s.completed

/-- The serial of the event in hand. -/
def inHand (s : FirmwareFlasher) : Option String :=
  match s.observer with
  | .found d _ => s.devices[d]?.map Device.serial
  | .done serial | .failed serial => some serial
  | .notStarted | .idle | .stopped | .raised => none

/-- **The invariant**, of runs in which a serial is queued once. -/
structure Inv (s : FirmwareFlasher) : Prop extends s.Sound where
  nodup : s.history.queued.Nodup
  places : s.places.Perm s.history.queued
  /-- The event in hand is of a queued device, which has left the queue only where
  the queue was emptied. -/
  inHand : ∀ serial, s.inHand = some serial → serial ∈ s.history.queued ∧
    (serial ∈ s.remainingSerials.keys ↔ s.history.cleared = false)

theorem inv_start : start.Inv where
  toSound := sound_start
  nodup := List.nodup_nil
  places := List.Perm.refl _
  inHand := nofun

/-- No serial is queued again. -/
def QueuesOnce (s : FirmwareFlasher) : FlasherInput → Prop
  | .flash serials _ => serials.Nodup ∧ ∀ serial ∈ serials, serial ∉ s.history.queued
  | .startFlasher | .event .. | .handle _ | .complete | .observerStops
  | .waitUntilFlashingFinished _ | .waiter _ | .timer _ | .stopFlasher => True

/-! ### Queuing -/

theorem mem_keys_of_mem_places {s : FirmwareFlasher} (hs : s.Inv) {serial : String}
    (h : serial ∈ s.remainingSerials.keys) : serial ∈ s.history.queued :=
  hs.places.mem_iff.mp (List.mem_append_left _ (List.mem_append_left _ (List.mem_append_left _ h)))

theorem Inv.queue {s : FirmwareFlasher} (hs : s.Inv) {serial path : String}
    (hnew : serial ∉ s.history.queued) : (queue path s serial).Inv := by
  have hkey : serial ∉ s.remainingSerials.keys := fun h => hnew (mem_keys_of_mem_places hs h)
  have hkeys : (FirmwareFlasher.queue path s serial).remainingSerials.keys =
      s.remainingSerials.keys ++ [serial] := Table.keys_put hkey
  refine ⟨hs.toSound.queue, ?_, ?_, fun x hx => ?_⟩
  · exact hs.nodup.append (List.nodup_singleton _) fun y hy hy' =>
      hnew (List.mem_singleton.mp hy' ▸ hy)
  · show (_ ++ _ ++ _ ++ _ : List String).Perm (_ ++ [serial])
    rw [hkeys]
    have hmove : (s.remainingSerials.keys ++ [serial] ++ s.failedSerials ++
        s.history.returned.flatten ++ s.completed).Perm (s.places ++ [serial]) := by
      refine List.perm_iff_count.mpr fun x => ?_
      simp only [FirmwareFlasher.places, List.count_append]
      omega
    exact hmove.trans (hs.places.append_right _)
  · -- the event in hand is of another device
    have hold : s.inHand = some x := by
      rw [← hx, FirmwareFlasher.inHand, FirmwareFlasher.inHand]
      have hobserver : (FirmwareFlasher.queue path s serial).observer = s.observer := rfl
      rw [hobserver]
      split
      · rename_i d method ho
        rw [getElem?_queue (hs.found d method ho)]
      all_goals rfl
    obtain ⟨hqueued, hiff⟩ := hs.inHand x hold
    refine ⟨List.mem_append_left _ hqueued, ?_⟩
    have hne : x ≠ serial := fun heq => hnew (heq ▸ hqueued)
    rw [hkeys, List.mem_append, List.mem_singleton, or_iff_left hne]
    exact hiff

theorem Inv.flash {s : FirmwareFlasher} (hs : s.Inv) {serials : List String} {path : String}
    (hserials : serials.Nodup) (hnew : ∀ serial ∈ serials, serial ∉ s.history.queued) :
    (s.flash serials path).Inv := by
  induction serials generalizing s with
  | nil => exact hs
  | cons x serials ih =>
    obtain ⟨hx, hserials⟩ := List.nodup_cons.mp hserials
    refine ih (hs.queue (hnew x List.mem_cons_self)) hserials fun y hy hmem => ?_
    rcases List.mem_append.mp hmem with hmem | hmem
    · exact hnew y (List.mem_cons_of_mem _ hy) hmem
    · exact hx (List.mem_singleton.mp hmem ▸ hy)

/-! ### The other steps -/

theorem inHand_of_found {s : FirmwareFlasher} {d : ℕ} {method : Export} {device : Device}
    (ho : s.observer = .found d method) (hd : s.devices[d]? = some device) :
    s.inHand = some device.serial := by
  rw [FirmwareFlasher.inHand, ho]
  show s.devices[d]?.map Device.serial = _
  rw [hd, Option.map_some]

/-- A handler takes a serial from the queue, to another place. -/
theorem perm_of_delete {s : FirmwareFlasher} {serial : String}
    (hserial : serial ∈ s.remainingSerials.keys) :
    s.places.Perm ((s.remainingSerials.delete fun p => p.1 = serial).keys ++ s.failedSerials ++
      s.history.returned.flatten ++ s.completed ++ [serial]) := by
  have hkeys := List.perm_iff_count.mp (Table.keys_perm_delete hserial)
  refine List.perm_iff_count.mpr fun x => ?_
  have hx := hkeys x
  rw [List.count_cons] at hx
  simp only [places, List.count_append, List.count_singleton]
  omega

/-- **Every step keeps the invariant**, where serials are queued once. -/
theorem inv_step {s t : FirmwareFlasher} {i : FlasherInput} (hs : s.Inv) (honce : s.QueuesOnce i)
    (h : s.step i = some t) : t.Inv := by
  have hsound := sound_step hs.toSound h
  cases rule_of_step h with
  | quiet hi ho =>
    refine ⟨hsound, hs.nodup, hs.places, ?_⟩
    rcases ho with rfl | rfl | rfl
    · exact hs.inHand
    · exact nofun
    · exact nofun
  | flash => exact hs.flash honce.1 honce.2
  | @found action dev serial d method hd =>
    refine ⟨hsound, hs.nodup, hs.places, fun x hx => ?_⟩
    obtain rfl : serial = x := Option.some.inj ((hs.named _ hd).symm.trans hx)
    have hkey : serial ∈ s.remainingSerials.keys := Table.key_mem_keys hd
    exact ⟨mem_keys_of_mem_places hs hkey, iff_of_true hkey rfl⟩
  | started ho hmethod hd hfinished =>
    exact ⟨hsound, hs.nodup, hs.places,
      fun x hx => hs.inHand x ((inHand_of_found ho hd).trans hx)⟩
  | uploaded ho hd hupload => exact ⟨hsound, hs.nodup, hs.places, nofun⟩
  | uploadFail ho hd hupload =>
    exact ⟨hsound, hs.nodup, hs.places,
      fun x hx => hs.inHand x ((inHand_of_found ho hd).trans hx)⟩
  | uploadRaises ho hupload => exact ⟨hsound, hs.nodup, hs.places, nofun⟩
  | @done serial ho hserial =>
    refine ⟨hsound, hs.nodup, ?_, nofun⟩
    refine List.Perm.trans (List.Perm.symm ?_) hs.places
    refine (perm_of_delete hserial).trans (List.perm_iff_count.mpr fun x => ?_)
    simp only [places, completed, List.map_append, List.map_singleton, List.count_append]
    omega
  | @failed serial ho hserial =>
    refine ⟨hsound, hs.nodup, ?_, nofun⟩
    refine List.Perm.trans (List.Perm.symm ?_) hs.places
    refine (perm_of_delete hserial).trans (List.perm_iff_count.mpr fun x => ?_)
    simp only [places, completed, List.count_append]
    omega
  | popRaises ho hserial => exact ⟨hsound, hs.nodup, hs.places, nofun⟩
  | clear hi =>
    refine ⟨hsound, hs.nodup, ?_,
      fun x hx => ⟨(hs.inHand x hx).1, iff_of_false List.not_mem_nil nofun⟩⟩
    refine List.Perm.trans (List.perm_iff_count.mpr fun x => ?_) hs.places
    have hnone : (clear s).remainingSerials.keys = [] := rfl
    simp only [places, completed, clear, List.count_append] at hnone ⊢
    rw [hnone, List.count_nil]
    omega
  | take =>
    refine ⟨hsound, hs.nodup, ?_, hs.inHand⟩
    refine List.Perm.trans (List.perm_iff_count.mpr fun x => ?_) hs.places
    simp only [places, completed, List.count_append, List.flatten_append, List.flatten_singleton,
      List.count_nil]
    omega

/-! ### Exceptions -/

/-- A handler goes on without an exception from outside, and finds its device
where it left it. -/
def Undisturbed (s : FirmwareFlasher) (i : FlasherInput) : Prop :=
  match i, s.observer with
  | .handle o, .found _ .part => partUpload o ≠ .raised
  | .complete, .done _ | .complete, .failed _ => s.history.cleared = false
  | _, _ => True

/-- No handler has raised, and every queued serial is in one place. -/
def Accounted (s : FirmwareFlasher) : Prop :=
  s.observer ≠ .raised ∧ ∀ serial ∈ s.history.queued, s.places.count serial = 1

theorem Inv.count_places {s : FirmwareFlasher} (hs : s.Inv) :
    ∀ serial ∈ s.history.queued, s.places.count serial = 1 := by
  intro serial hserial
  rw [hs.places.count_eq]
  exact List.count_eq_one_of_mem hs.nodup hserial

theorem undisturbed_of_harmless {s : FirmwareFlasher} {i : FlasherInput} (hi : s.Harmless i) :
    s.Undisturbed i := by
  rw [Undisturbed.eq_def]
  split
  · rename_i o d ho
    exact absurd ho (hi.2 o d rfl)
  · exact absurd rfl hi.1
  · exact absurd rfl hi.1
  · trivial

/-- The section that takes a device from the queue raises where it is not
there. -/
theorem undisturbed_complete {s : FirmwareFlasher} (hs : s.Inv) {serial : String}
    (ho : s.observer = .done serial ∨ s.observer = .failed serial) :
    s.Undisturbed .complete ↔ serial ∈ s.remainingSerials.keys := by
  have hhand : s.inHand = some serial := by
    rcases ho with ho | ho <;> rw [FirmwareFlasher.inHand, ho]
  have hun : s.Undisturbed .complete ↔ s.history.cleared = false := by
    rcases ho with ho | ho <;> rw [Undisturbed.eq_def, ho]
  exact hun.trans (hs.inHand serial hhand).2.symm

/-- **A step raises exactly where it is disturbed.** -/
theorem raised_step {s t : FirmwareFlasher} {i : FlasherInput} (hs : s.Inv)
    (hobserver : s.observer ≠ .raised) (h : s.step i = some t) :
    t.observer ≠ .raised ↔ s.Undisturbed i := by
  have hpart : ∀ {o : PartOutcome} {d : ℕ}, s.observer = .found d .part →
      (s.Undisturbed (.handle o) ↔ partUpload o ≠ .raised) := fun ho => by
    rw [Undisturbed.eq_def, ho]
  cases rule_of_step h with
  | quiet hi ho =>
    refine iff_of_true ?_ (undisturbed_of_harmless hi)
    rcases ho with rfl | rfl | rfl
    · exact hobserver
    · exact nofun
    · exact nofun
  | flash =>
    refine iff_of_true ?_ trivial
    simpa using hobserver
  | found hd => exact iff_of_true nofun trivial
  | started ho hmethod hd hfinished =>
    refine iff_of_true nofun (undisturbed_of_harmless ⟨nofun, fun o d _ ho' => hmethod ?_⟩)
    exact (Observer.found.inj (ho.symm.trans ho')).2
  | uploaded ho hd hupload =>
    exact iff_of_true nofun ((hpart ho).mpr (by rw [hupload]; exact nofun))
  | uploadFail ho hd hupload =>
    exact iff_of_true nofun ((hpart ho).mpr (by rw [hupload]; exact nofun))
  | uploadRaises ho hupload =>
    exact iff_of_false (fun hne => hne rfl) fun hun => (hpart ho).mp hun hupload
  | done ho hserial => exact iff_of_true nofun ((undisturbed_complete hs (Or.inl ho)).mpr hserial)
  | failed ho hserial => exact iff_of_true nofun ((undisturbed_complete hs (Or.inr ho)).mpr hserial)
  | popRaises ho hserial =>
    exact iff_of_false (fun hne => hne rfl)
      fun hun => hserial ((undisturbed_complete hs ho).mp hun)
  | clear hi => exact iff_of_true hobserver (undisturbed_of_harmless hi)
  | take => exact iff_of_true hobserver trivial

/-- A step that is not taken would not have been disturbed. -/
theorem undisturbed_of_step_eq_none {s : FirmwareFlasher} {i : FlasherInput} (hs : s.Inv)
    (h : s.step i = none) : s.Undisturbed i := by
  rw [Undisturbed.eq_def]
  split
  · rename_i o d ho
    -- the device in hand is there
    exfalso
    rw [step.eq_def] at h
    simp only [ho] at h
    have hd := hs.found d .part ho
    rw [List.getElem?_eq_getElem hd, Option.map_some] at h
    cases h
  · rename_i serial ho
    rw [step.eq_def] at h
    simp only [ho] at h
    cases h
  · rename_i serial ho
    rw [step.eq_def] at h
    simp only [ho] at h
    cases h
  · trivial

/-- **The exact condition for no handler to raise.** In every run in which a
serial is queued once, no handler ever raises and every queued serial is in
exactly one place at every point, exactly when the file system raises in no
handler and nothing empties the queue between the look-up of a handler and its
second section. -/
theorem accounting_iff {is : List FlasherInput} (hq : machine.Meets QueuesOnce start is) :
    machine.Along Accounted start is ↔ machine.Meets Undisturbed start is := by
  refine Machine.along_iff_meets_of_meets (I := Inv) (fun s i t hs honce h => inv_step hs honce h)
    (fun s i t hs honce hacc h => ?_) (fun s i hs h => undisturbed_of_step_eq_none hs h) inv_start
    ⟨nofun, inv_start.count_places⟩ hq
  have hcount := (inv_step hs honce h).count_places
  exact (and_iff_left hcount).trans (raised_step hs hacc.1 h)

/-! ### A flash, and one that takes too long -/

instance (s : FirmwareFlasher) (i : FlasherInput) : Decidable (s.QueuesOnce i) :=
  match i with
  | .flash .. => inferInstanceAs (Decidable (_ ∧ _))
  | .startFlasher | .event .. | .handle _ | .complete | .observerStops
  | .waitUntilFlashingFinished _ | .waiter _ | .timer _ | .stopFlasher => isTrue trivial

instance (s : FirmwareFlasher) (i : FlasherInput) : Decidable (s.Undisturbed i) := by
  unfold Undisturbed
  split <;> infer_instance

/-- A device is flashed, and its firmware starts. -/
def flashed : List FlasherInput :=
  [.startFlasher, .flash ["A"] "fw.uf2", .waitUntilFlashingFinished true,
    .event "add" (.partition "A"), .handle .allWorks, .event "add" (.serialPort "A"),
    .handle .allWorks, .complete, .waiter 0, .waiter 0, .waiter 0]

/-- The timer comes while the upload goes on. -/
def flashedLate : List FlasherInput :=
  [.startFlasher, .flash ["A"] "fw.uf2", .waitUntilFlashingFinished true,
    .event "add" (.partition "A"), .timer 0, .timer 0, .handle .copyFails, .complete]

theorem flashed_accounted : machine.Along Accounted start flashed :=
  (accounting_iff (by decide)).mpr (by decide)

/-- **A handler can raise**: after the timer has emptied the queue, the serial is
not there to be popped. -/
theorem flashedLate_raises :
    machine.Meets QueuesOnce start flashedLate ∧ ¬machine.Along Accounted start flashedLate := by
  refine ⟨by decide, fun h => ?_⟩
  have hrun : (machine.run start flashedLate).map observer = some .raised := by decide
  obtain ⟨s, hs, ho⟩ := Option.map_eq_some_iff.mp hrun
  exact (h.last hs).1 ho

end UsbipIce.Utils.FirmwareFlasher
