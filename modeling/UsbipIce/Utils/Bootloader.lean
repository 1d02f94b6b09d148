import UsbipIce.Lib.Collect
import UsbipIce.Utils.FirmwareFlasher

/-!
# Asking for the bootloader

`FirmwareFlasher.flash` from `get_devs` on. A device that is there already does
not show up again by itself, so `flash` collects the files of the devices there
are, takes those of the devices queued and asks every serial port among them for
its bootloader.

The loop that asks goes over all the files in a row, and returns at the first
one that is not a serial port. So a serial port behind one is not asked, be it
of the same device or of another, and its device waits in the queue until the
timer. Every port is asked, once, when every serial port comes before every
other file, and not otherwise (`UsbipIce.Utils.FirmwareFlasher.bootloader_iff`).
-/

namespace UsbipIce.Utils

open Lib

/-! ### The files there are -/

/-- `DEVNAME`, where there is one and it is not empty. -/
def DevFile.path (file : DevFile) : Option String := file.devname.filter (· ≠ "")

/-- A step of the loop of `get_devs`. -/
def getDevsStep (out : Table (String × List DevFile) Prod.fst) (dev : DevFile) :
    Table (String × List DevFile) Prod.fst :=
  match getSerial dev with
  | none => out
  | some serial =>
    match dev.path with
    | none => out
    | some _ => out.append serial dev

/-- `get_devs`, where `list_devices` gives the files `context`. -/
def getDevs (context : List DevFile) : Table (String × List DevFile) Prod.fst :=
  context.foldl getDevsStep ∅

/-- `send_bootloader`, where the command succeeds or does not. -/
def sendBootloader (picocom : Bool) : Bool := if picocom then true else false

/-- The files of the devices with these serials, one device after the other. -/
def filesOf (info : Table (String × List DevFile) Prod.fst) (serials : List String) :
    List DevFile :=
  (info.rows.filter fun p => p.1 ∈ serials).flatMap Prod.snd

/-- The loop of `flash` over the files: the paths given to `send_bootloader`, each
with what that returns. Call `n` of the command succeeds or does not, as
`picocom` has it. -/
def signalFiles (picocom : ℕ → Bool) (n : ℕ) : List DevFile → List (String × Bool)
  | [] => []
  | file :: files =>
    if file.subsystem ≠ some "tty" then []
    else
      match file.path with
      | none => signalFiles picocom n files
      | some path => (path, sendBootloader (picocom n)) :: signalFiles picocom (n + 1) files

/-- What a call of `flash` leaves. -/
structure FlashCall where
  flasher : FirmwareFlasher
  signals : List (String × Bool)

/-- `flash`. -/
def FirmwareFlasher.flashAll (s : FirmwareFlasher) (context : List DevFile) (picocom : ℕ → Bool)
    (serials : List String) (path : String) : FlashCall where
  flasher := s.flash serials path
  signals := signalFiles picocom 0 (filesOf (getDevs context) serials)

/-! ### The ports -/

/-- The file is a serial port. -/
def DevFile.isPort (file : DevFile) : Bool := file.subsystem = some "tty"

/-- The paths of the serial ports among some files. -/
def ports (files : List DevFile) : List String :=
  (files.filter DevFile.isPort).filterMap DevFile.path

/-- The file belongs to a device with one of these serials. -/
def DevFile.Of (serials : List String) (file : DevFile) : Prop :=
  ∃ serial ∈ serials, getSerial file = some serial

instance (serials : List String) (file : DevFile) : Decidable (file.Of serials) :=
  inferInstanceAs (Decidable (∃ serial ∈ serials, getSerial file = some serial))

/-- Every serial port comes before every other file. -/
def PortsFirst (files : List DevFile) : Prop :=
  files.Pairwise fun file later => later.isPort → file.isPort

instance (files : List DevFile) : Decidable (PortsFirst files) :=
  inferInstanceAs (Decidable (files.Pairwise _))

/-- The device is in the queue, with a firmware that has not been uploaded. -/
def FirmwareFlasher.Queued (s : FirmwareFlasher) (path serial : String) : Prop :=
  ∃ d, (serial, d) ∈ s.remainingSerials ∧ s.devices[d]? = some ⟨serial, path, false⟩

/-- What a call of `flash` is to do. -/
structure FlashCall.Asks (call : FlashCall) (context : List DevFile) (serials : List String)
    (path : String) : Prop where
  /-- A path is signalled as often as a serial port of the devices asked for has
  it: once, where no two files have one path, and never, where none of these has
  it. -/
  signalled : ∀ port, (call.signals.map Prod.fst).count port =
    (ports (context.filter fun file => file.Of serials)).count port
  /-- Every device asked for is in the queue, with the firmware. -/
  queued : ∀ serial ∈ serials, call.flasher.Queued path serial

/-! ### The collecting -/

/-- A file with a serial has a path. -/
theorem path_isSome_of_getSerial {file : DevFile} (h : (getSerial file).isSome) :
    file.path.isSome := by
  rw [getSerial] at h
  rw [DevFile.path]
  cases hname : file.devname.filter (· ≠ "") with
  | none =>
    rw [hname] at h
    cases h
  | some name => rfl

/-- `get_devs` collects the files by their serials. -/
theorem getDevs_eq (context : List DevFile) :
    getDevs context = Table.collect getSerial context := by
  have hstep : getDevsStep = Table.collectStep getSerial := by
    funext out file
    rw [getDevsStep, Table.collectStep]
    cases hserial : getSerial file with
    | none => rfl
    | some serial =>
      obtain ⟨path, hpath⟩ := Option.isSome_iff_exists.mp
        (path_isSome_of_getSerial (Option.isSome_iff_exists.mpr ⟨serial, hserial⟩))
      rw [hpath]
  rw [getDevs, Table.collect, hstep]

/-- The files of the devices asked for, in some order. -/
theorem filesOf_perm (context : List DevFile) (serials : List String) :
    (filesOf (getDevs context) serials).Perm (context.filter fun file => file.Of serials) := by
  rw [filesOf, getDevs_eq]
  refine (Table.flatMap_collect_perm fun serial => decide (serial ∈ serials)).trans ?_
  have hof : ∀ file ∈ context, (getSerial file).any (fun serial => decide (serial ∈ serials)) =
      decide (file.Of serials) := by
    intro file _
    rw [Bool.eq_iff_iff, decide_eq_true_iff, Option.any_eq_true]
    exact exists_congr fun serial => by rw [decide_eq_true_iff, and_comm]
  rw [List.filter_congr hof]

/-! ### The loop -/

theorem ports_cons_of_port {file : DevFile} (h : file.isPort) (files : List DevFile) :
    ports (file :: files) = file.path.toList ++ ports files := by
  rw [ports, List.filter_cons_of_pos h, List.filterMap_cons, ports]
  cases file.path <;> rfl

theorem ports_cons_of_not_port {file : DevFile} (h : ¬ file.isPort) (files : List DevFile) :
    ports (file :: files) = ports files := by
  rw [ports, List.filter_cons_of_neg h, ports]

/-- The loop signals the ports before the first other file. -/
@[simp] theorem map_fst_signalFiles (picocom : ℕ → Bool) (n : ℕ) (files : List DevFile) :
    (signalFiles picocom n files).map Prod.fst = ports (files.takeWhile DevFile.isPort) := by
  induction files generalizing n with
  | nil => rfl
  | cons file files ih =>
    rw [signalFiles]
    by_cases hport : file.isPort
    · have htty : file.subsystem = some "tty" := of_decide_eq_true hport
      rw [List.takeWhile_cons_of_pos hport, ports_cons_of_port hport, if_neg (not_not.mpr htty)]
      cases file.path with
      | none => exact ih n
      | some path => exact congrArg (path :: ·) (ih (n + 1))
    · have htty : file.subsystem ≠ some "tty" := fun h => hport (decide_eq_true h)
      rw [List.takeWhile_cons_of_neg hport, if_pos htty]
      rfl

/-- Files with a path show no path of a port where none of them is one. -/
theorem ports_eq_nil_iff {files : List DevFile} (hpath : ∀ file ∈ files, file.path.isSome) :
    ports files = [] ↔ ∀ file ∈ files, ¬ file.isPort := by
  rw [ports, List.filterMap_eq_nil_iff]
  refine ⟨fun h file hfile hport => ?_, fun h file hfile => ?_⟩
  · have hnone := h file (List.mem_filter.mpr ⟨hfile, hport⟩)
    simpa [hnone] using hpath file hfile
  · obtain ⟨hfile, hport⟩ := List.mem_filter.mp hfile
    exact absurd hport (h file hfile)

/-- **When the loop gets to every port**: every port comes before every other
file. -/
theorem signalFiles_perm_iff {files : List DevFile} (hpath : ∀ file ∈ files, file.path.isSome)
    (picocom : ℕ → Bool) (n : ℕ) :
    ((signalFiles picocom n files).map Prod.fst).Perm (ports files) ↔ PortsFirst files := by
  rw [map_fst_signalFiles]
  induction files with
  | nil => exact iff_of_true (List.Perm.refl _) List.Pairwise.nil
  | cons file files ih =>
    rw [PortsFirst, List.pairwise_cons]
    by_cases hport : file.isPort
    · -- a port at the head is signalled, and is in nobody's way
      rw [List.takeWhile_cons_of_pos hport, ports_cons_of_port hport, ports_cons_of_port hport,
        List.perm_append_left_iff, ih fun file hfile => hpath file (List.mem_cons_of_mem _ hfile)]
      exact (and_iff_right fun _ _ _ => hport).symm
    · -- the loop returns here, so there must be no port after it
      rw [List.takeWhile_cons_of_neg hport, ports_cons_of_not_port hport]
      have hnil : (ports []).Perm (ports files) ↔ ports files = [] := List.nil_perm
      rw [hnil, ports_eq_nil_iff fun file hfile => hpath file (List.mem_cons_of_mem _ hfile)]
      constructor
      · intro h
        refine ⟨fun later hlater hl => absurd hl (h later hlater), ?_⟩
        exact List.pairwise_of_forall_mem_list fun _ _ later hlater hl =>
          absurd hl (h later hlater)
      · rintro ⟨h, -⟩ later hlater hl
        exact hport (h later hlater hl)

/-! ### The queue -/

namespace FirmwareFlasher

theorem queued_queue (s : FirmwareFlasher) (path serial : String) :
    (queue path s serial).Queued path serial :=
  ⟨s.devices.length, Table.mem_put.mpr (Or.inl rfl), getElem?_queue_length⟩

/-- Queuing another device with the same firmware leaves those in the queue. -/
theorem Queued.queue {s : FirmwareFlasher} {path serial : String} (h : s.Queued path serial)
    (x : String) : (queue path s x).Queued path serial := by
  by_cases hx : serial = x
  · subst hx
    exact queued_queue s path serial
  · obtain ⟨d, hd, hdev⟩ := h
    refine ⟨d, Table.mem_put.mpr (Or.inr ⟨hd, hx⟩), ?_⟩
    rw [getElem?_queue (List.getElem?_eq_some_iff.mp hdev).1, hdev]

theorem Queued.flash {s : FirmwareFlasher} {path serial : String} (h : s.Queued path serial)
    (serials : List String) : (s.flash serials path).Queued path serial := by
  induction serials generalizing s with
  | nil => exact h
  | cons x serials ih => exact ih (h.queue x)

/-- **`flash` queues every device.** -/
theorem queued_flash {s : FirmwareFlasher} {path serial : String} {serials : List String}
    (h : serial ∈ serials) : (s.flash serials path).Queued path serial := by
  induction serials generalizing s with
  | nil => cases h
  | cons x serials ih =>
    rcases List.mem_cons.mp h with rfl | h
    · exact (queued_queue s path serial).flash serials
    · exact ih h

/-- **When every port is asked for its bootloader**: among the files of the
devices queued, every serial port comes before every other file. -/
theorem bootloader_iff (s : FirmwareFlasher) (context : List DevFile) (picocom : ℕ → Bool)
    (serials : List String) (path : String) :
    (s.flashAll context picocom serials path).Asks context serials path ↔
      PortsFirst (filesOf (getDevs context) serials) := by
  have hperm := filesOf_perm context serials
  have hpath : ∀ file ∈ filesOf (getDevs context) serials, file.path.isSome := by
    intro file hfile
    have hof := of_decide_eq_true (List.mem_filter.mp (hperm.mem_iff.mp hfile)).2
    obtain ⟨serial, -, hserial⟩ := hof
    exact path_isSome_of_getSerial (Option.isSome_iff_exists.mpr ⟨serial, hserial⟩)
  have hports : (ports (filesOf (getDevs context) serials)).Perm
      (ports (context.filter fun file => file.Of serials)) :=
    (hperm.filter _).filterMap _
  rw [← signalFiles_perm_iff hpath picocom 0]
  constructor
  · intro h
    exact (List.perm_iff_count.mpr h.signalled).trans hports.symm
  · intro h
    exact ⟨List.perm_iff_count.mp (h.trans hports), fun serial hserial => queued_flash hserial⟩

/-- A device in the bootloader, whose partition is listed first. -/
theorem partition_first_unasked :
    ¬ ∀ (s : FirmwareFlasher) (context : List DevFile) (picocom : ℕ → Bool)
      (serials : List String) (path : String),
      (s.flashAll context picocom serials path).Asks context serials path := by
  intro h
  have hone := (h start [.partition "A", .serialPort "B"] (fun _ => true) ["A", "B"]
    "/tmp/firmware.uf2").signalled "/dev/ttyACM0"
  revert hone
  decide

end FirmwareFlasher

end UsbipIce.Utils
