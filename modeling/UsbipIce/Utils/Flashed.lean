import UsbipIce.Utils.FirmwareFlasher

/-!
# What was flashed

A device counts as flashed when an event shows that its new firmware has started:
`handleDone` runs if the device's `upload_finished` is set, and that is set once
`upload_firmware_path` returns. But that function reports most failures by
returning `False`, which `partExport` does not look at. So a later event completes
a device that was never written
(`UsbipIce.Utils.FirmwareFlasher.blank_completed`).

Where every upload that does not succeed raises, and no device is queued anew
while a handler is about to complete it, what is completed has been uploaded
since it was queued (`UsbipIce.Utils.FirmwareFlasher.flashed_of_candid`).
-/

namespace UsbipIce.Utils.FirmwareFlasher

open Lib

/-! ### The invariant -/

/-- The serial that a handler is about to complete, having found its upload
finished. -/
def finishing (s : FirmwareFlasher) : Option String :=
  match s.observer with
  | .found _ .part => none
  | .found d _ => (s.devices[d]?.filter Device.uploadFinished).map Device.serial
  | .done serial => some serial
  | .failed _ | .notStarted | .idle | .stopped | .raised => none

/-- **The invariant**: where an upload counts as finished, one has returned
`True` since the serial was queued. -/
structure Uploaded (s : FirmwareFlasher) : Prop extends s.Sound where
  finished : ∀ p ∈ s.remainingSerials, ∀ device, s.devices[p.2]? = some device →
    device.uploadFinished = true → p.1 ∈ s.history.uploaded
  finishing : ∀ serial, s.finishing = some serial → serial ∈ s.history.uploaded
  flashed : ∀ p ∈ s.history.flashed, p.2 = true

theorem uploaded_start : start.Uploaded where
  toSound := sound_start
  finished := fun p hp => absurd hp (Table.not_mem_empty p)
  finishing := nofun
  flashed := nofun

/-- An upload of a queued device does not just return `False`, unless another
has returned `True`; and a serial is not queued while a handler is about to
complete it. -/
def Candid (s : FirmwareFlasher) : FlasherInput → Prop
  | .handle o => ∀ p ∈ s.remainingSerials, s.observer = .found p.2 .part →
      partUpload o = .returned false → p.1 ∈ s.history.uploaded
  | .flash serials _ => ∀ serial ∈ serials, s.finishing ≠ some serial
  | .startFlasher | .event .. | .complete | .observerStops | .waitUntilFlashingFinished _
  | .waiter _ | .timer _ | .stopFlasher => True

/-! ### Queuing -/

/-- Queuing leaves the handler alone. -/
@[simp] theorem finishing_queue {s : FirmwareFlasher} (hs : s.Sound) {serial path : String} :
    (queue path s serial).finishing = s.finishing := by
  rw [finishing, finishing]
  have hobserver : (queue path s serial).observer = s.observer := rfl
  rw [hobserver]
  split
  · rfl
  · rename_i d method hmethod ho
    rw [getElem?_queue (hs.found d method ho)]
  all_goals rfl

@[simp] theorem mem_uploaded_queue {s : FirmwareFlasher} {serial path x : String} :
    x ∈ (queue path s serial).history.uploaded ↔ x ∈ s.history.uploaded ∧ x ≠ serial := by
  show x ∈ s.history.uploaded.filter _ ↔ _
  rw [List.mem_filter, decide_eq_true_eq]

theorem Uploaded.queue {s : FirmwareFlasher} (hs : s.Uploaded) {serial path : String}
    (hfinishing : s.finishing ≠ some serial) : (queue path s serial).Uploaded := by
  refine ⟨hs.toSound.queue, fun p hp device hd hfinished => ?_, fun x hx => ?_, hs.flashed⟩
  · rcases Table.mem_put.mp hp with rfl | ⟨hp, hne⟩
    · -- the new device is not finished
      rw [getElem?_queue_length] at hd
      obtain rfl := Option.some.inj hd
      cases hfinished
    · rw [getElem?_queue (hs.lt hp)] at hd
      exact mem_uploaded_queue.mpr ⟨hs.finished p hp device hd hfinished, hne⟩
  · rw [finishing_queue hs.toSound] at hx
    refine mem_uploaded_queue.mpr ⟨hs.finishing x hx, ?_⟩
    rintro rfl
    exact hfinishing hx

theorem Uploaded.flash {s : FirmwareFlasher} (hs : s.Uploaded) {serials : List String}
    {path : String} (hfinishing : ∀ serial ∈ serials, s.finishing ≠ some serial) :
    (s.flash serials path).Uploaded := by
  induction serials generalizing s with
  | nil => exact hs
  | cons x serials ih =>
    refine ih (hs.queue (hfinishing x List.mem_cons_self)) fun y hy => ?_
    rw [finishing_queue hs.toSound]
    exact hfinishing y (List.mem_cons_of_mem _ hy)

/-! ### Handling -/

/-- With an event in hand, a handler is about to complete its device if that is
finished. -/
theorem finishing_eq_some {s : FirmwareFlasher} {d : ℕ} {method : Export}
    (ho : s.observer = .found d method) {serial : String} :
    s.finishing = some serial ↔ method ≠ .part ∧
      ∃ device, s.devices[d]? = some device ∧ device.uploadFinished = true ∧
        device.serial = serial := by
  have hsome : (s.devices[d]?.filter Device.uploadFinished).map Device.serial = some serial ↔
      ∃ device, s.devices[d]? = some device ∧ device.uploadFinished = true ∧
        device.serial = serial := by
    simp only [Option.map_eq_some_iff, Option.filter_eq_some_iff, and_assoc]
  rw [finishing, ho]
  cases method with
  | tty => exact hsome.trans (and_iff_right nofun).symm
  | other => exact hsome.trans (and_iff_right nofun).symm
  | part => exact iff_of_false nofun fun h => h.1 rfl

/-- An upload that returns leaves the other devices, and its own finished. -/
theorem finished_set {s : FirmwareFlasher} (hs : s.Uploaded) {d : ℕ} {device : Device}
    (hd : s.devices[d]? = some device) {o : PartOutcome} {result : Bool}
    (ho : s.observer = .found d .part) (hupload : partUpload o = .returned result)
    (hcandid : s.Candid (.handle o)) {p : String × ℕ} (hp : p ∈ s.remainingSerials)
    {device' : Device}
    (hd' : (s.devices.set d { device with uploadFinished := true })[p.2]? = some device')
    (hfinished : device'.uploadFinished = true) :
    p.1 ∈ if result then device.serial :: s.history.uploaded else s.history.uploaded := by
  have hkeep : p.1 ∈ s.history.uploaded →
      p.1 ∈ if result then device.serial :: s.history.uploaded else s.history.uploaded := by
    intro hmem
    split
    · exact List.mem_cons_of_mem _ hmem
    · exact hmem
  rw [List.getElem?_set] at hd'
  split at hd'
  · rename_i heq
    subst heq
    cases result with
    | true =>
      rw [if_pos rfl, hs.serial hp hd]
      exact List.mem_cons_self
    | false => exact hkeep (hcandid p hp ho hupload)
  · exact hkeep (hs.finished p hp device' hd' hfinished)

theorem uploaded_step {s t : FirmwareFlasher} {i : FlasherInput} (hs : s.Uploaded)
    (hcandid : s.Candid i) (h : s.step i = some t) : t.Uploaded := by
  have hsound := sound_step hs.toSound h
  cases rule_of_step h with
  | quiet hi ho =>
    refine ⟨hsound, hs.finished, ?_, hs.flashed⟩
    rcases ho with rfl | rfl | rfl
    · exact hs.finishing
    · exact nofun
    · exact nofun
  | flash => exact hs.flash hcandid
  | found hd =>
    refine ⟨hsound, hs.finished, fun serial hserial => ?_, hs.flashed⟩
    obtain ⟨-, device, hdevice, hfinished, rfl⟩ := (finishing_eq_some rfl).mp hserial
    rw [hs.serial hd hdevice]
    exact hs.finished _ hd device hdevice hfinished
  | @started o d method device ho hmethod hd hfinished =>
    refine ⟨hsound, hs.finished, fun serial hserial => hs.finishing serial ?_, hs.flashed⟩
    exact (finishing_eq_some ho).mpr ⟨hmethod, device, hd, hfinished, Option.some.inj hserial⟩
  | uploaded ho hd hupload =>
    exact ⟨hsound, fun p hp device' hd' => finished_set hs hd ho hupload hcandid hp hd', nofun,
      hs.flashed⟩
  | uploadFail ho hd hupload => exact ⟨hsound, hs.finished, nofun, hs.flashed⟩
  | uploadRaises ho hupload => exact ⟨hsound, hs.finished, nofun, hs.flashed⟩
  | @done serial ho hserial =>
    refine ⟨hsound, fun p hp => hs.finished p (Table.mem_delete.mp hp).1, nofun, fun p hp => ?_⟩
    rcases List.mem_append.mp hp with hp | hp
    · exact hs.flashed p hp
    · obtain rfl := List.mem_singleton.mp hp
      refine decide_eq_true (hs.finishing serial ?_)
      rw [finishing, ho]
  | failed ho hserial =>
    exact ⟨hsound, fun p hp => hs.finished p (Table.mem_delete.mp hp).1, nofun, hs.flashed⟩
  | popRaises ho hserial => exact ⟨hsound, hs.finished, nofun, hs.flashed⟩
  | clear hi =>
    exact ⟨hsound, fun p hp => absurd hp (Table.not_mem_empty p), hs.finishing, hs.flashed⟩
  | take => exact ⟨hsound, hs.finished, hs.finishing, hs.flashed⟩

/-- **What is completed has been uploaded.** In every state of every run all of
whose steps are candid, each serial that `handleDone` has completed is one for
which an upload had returned `True` since it was queued. -/
theorem flashed_of_candid {is : List FlasherInput} (hc : machine.Meets Candid start is) {s}
    (h : machine.run start is = some s) : ∀ p ∈ s.history.flashed, p.2 = true :=
  (Machine.invariant_of_meets (I := Uploaded) (fun _ _ _ => uploaded_step) uploaded_start hc
    h).flashed

/-! ### A flash, and one of nothing -/

instance (s : FirmwareFlasher) : ∀ i, Decidable (s.Candid i)
  | .handle o =>
    inferInstanceAs (Decidable (∀ p ∈ s.remainingSerials, s.observer = .found p.2 .part →
      partUpload o = .returned false → p.1 ∈ s.history.uploaded))
  | .flash serials _ => inferInstanceAs (Decidable (∀ serial ∈ serials, s.finishing ≠ some serial))
  | .startFlasher | .event .. | .complete | .observerStops | .waitUntilFlashingFinished _
  | .waiter _ | .timer _ | .stopFlasher => .isTrue trivial

/-- The bootloader's partition shows, and then the firmware's serial port. -/
def twoEvents (o : PartOutcome) : List FlasherInput :=
  [.startFlasher, .flash ["A"] "fw.uf2", .event "add" (.partition "A"), .handle o,
    .event "add" (.serialPort "A"), .handle o, .complete]

theorem twoEvents_flashed : ∃ s, machine.run start (twoEvents .allWorks) = some s ∧
    s.history.flashed ≠ [] ∧ ∀ p ∈ s.history.flashed, p.2 = true := by
  have hrun : ((machine.run start (twoEvents .allWorks)).map fun s => s.history.flashed) =
      some [("A", true)] := by decide
  obtain ⟨s, hs, hflashed⟩ := Option.map_eq_some_iff.mp hrun
  refine ⟨s, hs, fun hnil => ?_, flashed_of_candid (by decide) hs⟩
  rw [hnil] at hflashed
  cases hflashed

/-- **A blank device is completed**: the mount fails, and the serial port shows
all the same. -/
theorem blank_completed : ∃ s, machine.run start (twoEvents .mountFails) = some s ∧
    ¬∀ p ∈ s.history.flashed, p.2 = true := by
  have hrun : ((machine.run start (twoEvents .mountFails)).map fun s => s.history.flashed) =
      some [("A", false)] := by decide
  obtain ⟨s, hs, hflashed⟩ := Option.map_eq_some_iff.mp hrun
  refine ⟨s, hs, fun hall => ?_⟩
  have hfalse := hall ("A", false) (hflashed ▸ List.mem_singleton_self _)
  cases hfalse

end UsbipIce.Utils.FirmwareFlasher
