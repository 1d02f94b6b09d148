import UsbipIce.Lib.Machine
import UsbipIce.Lib.Table

/-!
# The firmware flasher

`FirmwareFlasher` of `utils/FirmwareFlasher.py`. `flash` queues devices in
`remaining_serials`; a thread of the observer gets the kernel's events and, for
a device in the queue, uploads the firmware or takes it that the firmware has
started; `waitUntilFlashingFinished` waits until the queue is empty, and a timer
or `stopFlasher` empties it by declaring what is left failed.

Every section under `cv` is one step. The handler of an event is not one
section: it looks the device up in the queue, leaves the lock, does the slow
work, and takes the device from the queue in another section. Between the two
the timer and `stopFlasher` may come.

There is one observer, and its thread handles one event at a time. An exception
in a handler ends the thread. What the file system and the commands do comes in
as an outcome (`UsbipIce.Utils.PartOutcome`).
-/

namespace UsbipIce.Utils

open Lib

/-! ### Events -/

/-- What the dictionary of a device file has under the keys looked at. -/
structure DevFile where
  devname : Option String
  idModel : Option String
  idSerialShort : Option String
  subsystem : Option String
  devtype : Option String
  deriving DecidableEq, Repr

/-- `re.match` of a literal. -/
def startsWith (p s : String) : Bool := p.toList.isPrefixOf s.toList

/-- `get_serial`. -/
def getSerial (dev : DevFile) : Option String := do
  let devname ← dev.devname.filter (· ≠ "")
  if !startsWith "/dev/" devname || startsWith "/dev/bus/" devname then none
  else if dev.idModel ∉ [some "RP2350", some "pico-ice", some "Pico"] then none
  else dev.idSerialShort.filter (· ≠ "")

/-- The method of a device that an event is routed to. -/
inductive Export where
  | tty
  | part
  | other
  deriving DecidableEq, Repr

/-- The routing of `__handle_event`. -/
def DevFile.route (dev : DevFile) : Export :=
  if dev.subsystem = some "tty" then .tty
  else if dev.devtype = some "partition" then .part
  else .other

/-- The partition that a bootloader shows. -/
def DevFile.partition (serial : String) : DevFile :=
  ⟨some "/dev/sda1", some "RP2350", some serial, some "block", some "partition"⟩

/-- The serial port that a firmware shows. -/
def DevFile.serialPort (serial : String) : DevFile :=
  ⟨some "/dev/ttyACM0", some "pico-ice", some serial, some "tty", none⟩

example : getSerial (.partition "A") = some "A" ∧ (DevFile.partition "A").route = .part := by
  decide

/-! ### Uploads -/

/-- What `partExport` finds outside. -/
structure PartOutcome where
  /-- The mount path exists, or `os.mkdir` makes it; otherwise that raises. -/
  prepared : Bool
  /-- What `mount` returns. -/
  mounted : Bool
  /-- What `os.listdir` returns, `none` where it raises. -/
  listing : Option (List String)
  /-- The copy succeeds. -/
  copied : Bool
  deriving DecidableEq, Repr

/-- How an upload ends. -/
inductive Upload where
  | returned (result : Bool)
  /-- It raises `FirmwareUploadFail`. -/
  | uploadFail
  /-- It raises something else. -/
  | raised
  deriving DecidableEq, Repr

/-- `upload_firmware_path`. -/
def uploadFirmwarePath (o : PartOutcome) : Upload :=
  if !o.mounted then .returned false
  else
    match o.listing with
    | none => .raised
    | some files =>
      if files ≠ ["INDEX.HTM", "INFO_UF2.TXT"] then .returned false
      else if o.copied then .returned true
      else .uploadFail

/-- The body of `partExport` up to what it does about the upload. -/
def partUpload (o : PartOutcome) : Upload := if o.prepared then uploadFirmwarePath o else .raised

/-- Everything works. -/
def PartOutcome.allWorks : PartOutcome := ⟨true, true, some ["INDEX.HTM", "INFO_UF2.TXT"], true⟩

/-- The copy fails. -/
def PartOutcome.copyFails : PartOutcome :=
  ⟨true, true, some ["INDEX.HTM", "INFO_UF2.TXT"], false⟩

/-- The partition is not mounted. -/
def PartOutcome.mountFails : PartOutcome := ⟨true, false, none, false⟩

/-! ### The flasher -/

/-- A `Device` of the flasher. -/
structure Device where
  serial : String
  firmwarePath : String
  uploadFinished : Bool
  deriving DecidableEq, Repr

/-- Where the thread of the observer is. -/
inductive Observer where
  | notStarted
  /-- Waiting for an event. -/
  | idle
  /-- The device of the event is found in the queue. -/
  | found (device : ℕ) (method : Export)
  /-- At the section of `handleDone`. -/
  | done (serial : String)
  /-- At the section of `handleFailed`. -/
  | failed (serial : String)
  | stopped
  /-- Ended by an exception. -/
  | raised
  deriving DecidableEq, Repr

/-- The timer of a call of `waitUntilFlashingFinished`. -/
inductive Timer where
  | pending
  /-- `ontimeout` is about to take the lock. -/
  | fired
  /-- There is none, or no more. -/
  | over
  deriving DecidableEq, Repr

/-- Where a call of `waitUntilFlashingFinished` is. -/
inductive Stage where
  | waiting
  /-- `wait_for` has returned. -/
  | woken
  /-- The timer is cancelled. -/
  | cancelled
  | returned
  deriving DecidableEq, Repr

/-- A call of `waitUntilFlashingFinished`. -/
structure Wait where
  timer : Timer
  stage : Stage
  deriving DecidableEq, Repr

/-- What has happened so far. Nothing in the source reads it. -/
structure Flashings where
  /-- The serials queued. -/
  queued : List String
  /-- The serials for which an upload has returned `True` since they were last
  queued. -/
  uploaded : List String
  /-- The serials completed by `handleDone`, each with whether an upload had
  returned `True` since it was queued. -/
  flashed : List (String × Bool)
  /-- The failed lists returned. -/
  returned : List (List String)
  /-- The queue was emptied by a timer or `stopFlasher` after the last look-up. -/
  cleared : Bool
  deriving DecidableEq, Repr

/-- A `FirmwareFlasher`, with its `Device` objects in the order they were
made. -/
structure FirmwareFlasher where
  devices : List Device
  remainingSerials : Table (String × ℕ) Prod.fst
  failedSerials : List String
  observer : Observer
  /-- `send_stop` was called on the observer. -/
  stopping : Bool
  waits : List Wait
  history : Flashings

/-- What a flasher is driven by. -/
inductive FlasherInput where
  | startFlasher
  | flash (serials : List String) (path : String)
  /-- The observer gets an event. -/
  | event (action : String) (dev : DevFile)
  /-- The handler goes through the method of the device. -/
  | handle (o : PartOutcome)
  /-- The handler goes through the section of `handleDone` or `handleFailed`. -/
  | complete
  /-- The observer sees that it is to stop. -/
  | observerStops
  | waitUntilFlashingFinished (timeout : Bool)
  /-- Call `k` of `waitUntilFlashingFinished` goes on. -/
  | waiter (k : ℕ)
  /-- The timer of call `k` fires, or goes through its section. -/
  | timer (k : ℕ)
  | stopFlasher

namespace FirmwareFlasher

/-- `FirmwareFlasher.__init__`. -/
def start : FirmwareFlasher where
  devices := []
  remainingSerials := ∅
  failedSerials := []
  observer := .notStarted
  stopping := false
  waits := []
  history :=
    { queued := []
      uploaded := []
      flashed := []
      returned := []
      cleared := false }

/-- An iteration of the loop of `flash`. -/
def queue (path : String) (s : FirmwareFlasher) (serial : String) : FirmwareFlasher :=
  { s with
    devices := s.devices ++ [⟨serial, path, false⟩]
    remainingSerials := s.remainingSerials.put (serial, s.devices.length)
    history :=
      { s.history with
        queued := s.history.queued ++ [serial]
        uploaded := s.history.uploaded.filter (· ≠ serial) } }

/-- The section of `flash`. What follows it asks devices that are there already
for their bootloader, and leaves the flasher alone. -/
def flash (s : FirmwareFlasher) (serials : List String) (path : String) : FirmwareFlasher :=
  serials.foldl (queue path) s

/-- The first section of `__handle_event`, for a file with this serial. -/
def lookUp (s : FirmwareFlasher) (serial : String) (method : Export) : FirmwareFlasher :=
  match s.remainingSerials.find? serial with
  | none => s
  | some (_, device) =>
    { s with
      observer := .found device method
      history := { s.history with cleared := false } }

/-- `ttyExport`, `partExport` and `otherExport`, up to the sections of
`markDone` and `markFailed`. -/
def exportTo (s : FirmwareFlasher) (d : ℕ) (device : Device) (o : PartOutcome) :
    Export → FirmwareFlasher
  | .tty | .other =>
    { s with observer := if device.uploadFinished then .done device.serial else .idle }
  | .part =>
    match partUpload o with
    | .raised => { s with observer := .raised }
    | .uploadFail => { s with observer := .failed device.serial }
    | .returned result =>
      { s with
        devices := s.devices.set d { device with uploadFinished := true }
        observer := .idle
        history :=
          { s.history with
            uploaded := if result then device.serial :: s.history.uploaded
              else s.history.uploaded } }

/-- `handleDone`. -/
def handleDone (s : FirmwareFlasher) (serial : String) : FirmwareFlasher :=
  if serial ∈ s.remainingSerials.keys then
    { s with
      remainingSerials := s.remainingSerials.delete fun p => p.1 = serial
      observer := .idle
      history :=
        { s.history with
          flashed := s.history.flashed ++ [(serial, decide (serial ∈ s.history.uploaded))] } }
  else { s with observer := .raised }

/-- `handleFailed`; a `Device` is always true. -/
def handleFailed (s : FirmwareFlasher) (serial : String) : FirmwareFlasher :=
  if serial ∈ s.remainingSerials.keys then
    { s with
      remainingSerials := s.remainingSerials.delete fun p => p.1 = serial
      failedSerials := s.failedSerials ++ [serial]
      observer := .idle }
  else { s with observer := .raised }

/-- The section of `ontimeout` and of `stopFlasher`. -/
def clear (s : FirmwareFlasher) : FirmwareFlasher :=
  { s with
    failedSerials := s.failedSerials ++ s.remainingSerials.keys
    remainingSerials := ∅
    history := { s.history with cleared := true } }

/-- A call of `waitUntilFlashingFinished` goes on. -/
def stepWaiter (s : FirmwareFlasher) (k : ℕ) (w : Wait) : Option FirmwareFlasher :=
  match w.stage with
  | .waiting =>
    if s.remainingSerials.rows = [] then
      some { s with waits := s.waits.set k { w with stage := .woken } }
    else none
  | .woken =>
    -- a timer that has fired is not stopped any more
    some { s with
      waits := s.waits.set k
        { timer := if w.timer = .pending then .over else w.timer
          stage := .cancelled } }
  | .cancelled =>
    some { s with
      failedSerials := []
      waits := s.waits.set k { w with stage := .returned }
      history := { s.history with returned := s.history.returned ++ [s.failedSerials] } }
  | .returned => none

/-- The timer of a call goes on. -/
def stepTimer (s : FirmwareFlasher) (k : ℕ) (w : Wait) : Option FirmwareFlasher :=
  match w.timer with
  | .pending => some { s with waits := s.waits.set k { w with timer := .fired } }
  | .fired => some { s.clear with waits := s.waits.set k { w with timer := .over } }
  | .over => none

/-- One step. -/
def step (s : FirmwareFlasher) : FlasherInput → Option FirmwareFlasher
  | .startFlasher =>
    -- a thread that has ended is not started again
    match s.observer with
    | .notStarted => some { s with observer := .idle }
    | _ => some s
  | .flash serials path => some (s.flash serials path)
  | .event action dev =>
    match s.observer with
    | .idle =>
      if action ≠ "add" then some s
      else
        match getSerial dev with
        | none => some s
        | some serial => some (s.lookUp serial dev.route)
    | _ => none
  | .handle o =>
    match s.observer with
    | .found d method => s.devices[d]?.map fun device => s.exportTo d device o method
    | _ => none
  | .complete =>
    match s.observer with
    | .done serial => some (s.handleDone serial)
    | .failed serial => some (s.handleFailed serial)
    | _ => none
  | .observerStops =>
    match s.observer with
    | .idle => if s.stopping then some { s with observer := .stopped } else none
    | _ => none
  | .waitUntilFlashingFinished timeout =>
    some { s with waits := s.waits ++ [⟨if timeout then .pending else .over, .waiting⟩] }
  | .waiter k => s.waits[k]?.bind (s.stepWaiter k)
  | .timer k => s.waits[k]?.bind (s.stepTimer k)
  | .stopFlasher =>
    some { s.clear with
      stopping := s.stopping || decide (s.observer ≠ .notStarted) }

/-- A flasher as a machine. -/
def machine : Machine FirmwareFlasher FlasherInput := ⟨step⟩

/-! ### What a step can do -/

/-- The step is neither an upload nor a section that takes a device from the
queue. -/
def Harmless (s : FirmwareFlasher) (i : FlasherInput) : Prop :=
  i ≠ .complete ∧ ∀ o d, i = .handle o → s.observer ≠ .found d .part

/-- **The rules**: every way in which a step changes the state. -/
inductive Rule (s : FirmwareFlasher) : FlasherInput → FirmwareFlasher → Prop
  /-- Only the calls, or a thread with nothing in hand, go on. -/
  | quiet {i : FlasherInput} {o : Observer} {stopping : Bool} {ws : List Wait}
      (hi : s.Harmless i) (ho : o = s.observer ∨ o = .idle ∨ o = .stopped) :
      Rule s i
        { s with
          observer := o
          stopping := stopping
          waits := ws }
  /-- Serials are queued. -/
  | flash {serials : List String} {path : String} :
      Rule s (.flash serials path) (s.flash serials path)
  /-- The device of an event is found in the queue. -/
  | found {action : String} {dev : DevFile} {serial : String} {d : ℕ} {method : Export}
      (hd : (serial, d) ∈ s.remainingSerials) :
      Rule s (.event action dev)
        { s with
          observer := .found d method
          history := { s.history with cleared := false } }
  /-- The firmware of a device has started. -/
  | started {o : PartOutcome} {d : ℕ} {method : Export} {device : Device}
      (ho : s.observer = .found d method) (hmethod : method ≠ .part)
      (hd : s.devices[d]? = some device) (hfinished : device.uploadFinished = true) :
      Rule s (.handle o) { s with observer := .done device.serial }
  /-- An upload returns. -/
  | uploaded {o : PartOutcome} {d : ℕ} {device : Device} {result : Bool}
      (ho : s.observer = .found d .part) (hd : s.devices[d]? = some device)
      (hupload : partUpload o = .returned result) :
      Rule s (.handle o)
        { s with
          devices := s.devices.set d { device with uploadFinished := true }
          observer := .idle
          history :=
            { s.history with
              uploaded := if result then device.serial :: s.history.uploaded
                else s.history.uploaded } }
  /-- An upload fails. -/
  | uploadFail {o : PartOutcome} {d : ℕ} {device : Device} (ho : s.observer = .found d .part)
      (hd : s.devices[d]? = some device) (hupload : partUpload o = .uploadFail) :
      Rule s (.handle o) { s with observer := .failed device.serial }
  /-- The file system raises. -/
  | uploadRaises {o : PartOutcome} {d : ℕ} (ho : s.observer = .found d .part)
      (hupload : partUpload o = .raised) :
      Rule s (.handle o) { s with observer := .raised }
  /-- A device is flashed. -/
  | done {serial : String} (ho : s.observer = .done serial)
      (hserial : serial ∈ s.remainingSerials.keys) :
      Rule s .complete
        { s with
          remainingSerials := s.remainingSerials.delete fun p => p.1 = serial
          observer := .idle
          history :=
            { s.history with
              flashed := s.history.flashed ++ [(serial, decide (serial ∈ s.history.uploaded))] } }
  /-- A device has failed. -/
  | failed {serial : String} (ho : s.observer = .failed serial)
      (hserial : serial ∈ s.remainingSerials.keys) :
      Rule s .complete
        { s with
          remainingSerials := s.remainingSerials.delete fun p => p.1 = serial
          failedSerials := s.failedSerials ++ [serial]
          observer := .idle }
  /-- The device is not in the queue any more. -/
  | popRaises {serial : String} (ho : s.observer = .done serial ∨ s.observer = .failed serial)
      (hserial : serial ∉ s.remainingSerials.keys) :
      Rule s .complete { s with observer := .raised }
  /-- A timer or `stopFlasher` empties the queue. -/
  | clear {i : FlasherInput} {stopping : Bool} {ws : List Wait} (hi : s.Harmless i) :
      Rule s i
        { s.clear with
          stopping := stopping
          waits := ws }
  /-- A call returns the failed serials. -/
  | take {k : ℕ} {ws : List Wait} :
      Rule s (.waiter k)
        { s with
          failedSerials := []
          waits := ws
          history := { s.history with returned := s.history.returned ++ [s.failedSerials] } }

/-- A step that changes nothing is quiet. -/
theorem Rule.refl {s : FirmwareFlasher} {i : FlasherInput} (hi : s.Harmless i) : Rule s i s :=
  .quiet hi (Or.inl rfl)

theorem rule_event {s t : FirmwareFlasher} {action : String} {dev : DevFile}
    (h : s.step (.event action dev) = some t) : Rule s (.event action dev) t := by
  simp only [step] at h
  split at h
  · split at h
    · obtain rfl := Option.some.inj h
      exact .refl ⟨nofun, nofun⟩
    · split at h
      · obtain rfl := Option.some.inj h
        exact .refl ⟨nofun, nofun⟩
      · rename_i serial hserial
        obtain rfl := Option.some.inj h
        rw [lookUp]
        split
        · exact .refl ⟨nofun, nofun⟩
        · rename_i x d hfind
          obtain ⟨hmem, rfl⟩ := Table.find?_eq_some.mp hfind
          exact .found hmem
  · cases h

theorem rule_handle {s t : FirmwareFlasher} {o : PartOutcome}
    (h : s.step (.handle o) = some t) : Rule s (.handle o) t := by
  simp only [step] at h
  split at h
  · rename_i d method ho
    obtain ⟨device, hd, rfl⟩ := Option.map_eq_some_iff.mp h
    rw [exportTo.eq_def]
    have hidle : ∀ {m}, s.observer = .found d m → m ≠ .part → s.Harmless (.handle o) := by
      refine fun ho hm => ⟨nofun, fun _ d' _ ho' => hm ?_⟩
      exact (Observer.found.inj (ho.symm.trans ho')).2
    split
    · by_cases hfinished : device.uploadFinished = true
      · rw [if_pos hfinished]
        exact .started ho nofun hd hfinished
      · rw [if_neg hfinished]
        exact .quiet (hidle ho nofun) (Or.inr (Or.inl rfl))
    · by_cases hfinished : device.uploadFinished = true
      · rw [if_pos hfinished]
        exact .started ho nofun hd hfinished
      · rw [if_neg hfinished]
        exact .quiet (hidle ho nofun) (Or.inr (Or.inl rfl))
    · split
      · exact .uploadRaises ho ‹_›
      · exact .uploadFail ho hd ‹_›
      · exact .uploaded ho hd ‹_›
  · cases h

theorem rule_complete {s t : FirmwareFlasher} (h : s.step .complete = some t) :
    Rule s .complete t := by
  simp only [step] at h
  split at h
  · rename_i serial ho
    obtain rfl := Option.some.inj h
    rw [handleDone]
    split
    · exact .done ho ‹_›
    · exact .popRaises (Or.inl ho) ‹_›
  · rename_i serial ho
    obtain rfl := Option.some.inj h
    rw [handleFailed]
    split
    · exact .failed ho ‹_›
    · exact .popRaises (Or.inr ho) ‹_›
  · cases h

/-- **A step is an instance of a rule.** -/
theorem rule_of_step {s t : FirmwareFlasher} {i : FlasherInput} (h : s.step i = some t) :
    Rule s i t := by
  cases i with
  | startFlasher =>
    simp only [step] at h
    split at h
    · obtain rfl := Option.some.inj h
      exact .quiet ⟨nofun, nofun⟩ (Or.inr (Or.inl rfl))
    · obtain rfl := Option.some.inj h
      exact .refl ⟨nofun, nofun⟩
  | flash serials path =>
    obtain rfl := Option.some.inj h
    exact .flash
  | event action dev => exact rule_event h
  | handle o => exact rule_handle h
  | complete => exact rule_complete h
  | observerStops =>
    simp only [step] at h
    split at h
    · split at h
      · obtain rfl := Option.some.inj h
        exact .quiet ⟨nofun, nofun⟩ (Or.inr (Or.inr rfl))
      · cases h
    · cases h
  | waitUntilFlashingFinished timeout =>
    obtain rfl := Option.some.inj h
    exact .quiet ⟨nofun, nofun⟩ (Or.inl rfl)
  | waiter k =>
    obtain ⟨w, -, hw⟩ := Option.bind_eq_some_iff.mp h
    rw [stepWaiter] at hw
    split at hw
    · split at hw
      · obtain rfl := Option.some.inj hw
        exact .quiet ⟨nofun, nofun⟩ (Or.inl rfl)
      · cases hw
    · obtain rfl := Option.some.inj hw
      exact .quiet ⟨nofun, nofun⟩ (Or.inl rfl)
    · obtain rfl := Option.some.inj hw
      exact .take
    · cases hw
  | timer k =>
    obtain ⟨w, -, hw⟩ := Option.bind_eq_some_iff.mp h
    rw [stepTimer] at hw
    split at hw
    · obtain rfl := Option.some.inj hw
      exact .quiet ⟨nofun, nofun⟩ (Or.inl rfl)
    · obtain rfl := Option.some.inj hw
      exact .clear ⟨nofun, nofun⟩
    · cases hw
  | stopFlasher =>
    obtain rfl := Option.some.inj h
    exact .clear ⟨nofun, nofun⟩

/-! ### Devices -/

/-- What is known of the devices: the entries of the queue and the event in hand
lead to one, and an entry to one of its serial. -/
structure Sound (s : FirmwareFlasher) : Prop where
  named : ∀ p ∈ s.remainingSerials, s.devices[p.2]?.map Device.serial = some p.1
  found : ∀ d method, s.observer = .found d method → d < s.devices.length

theorem sound_start : start.Sound where
  named := fun p hp => absurd hp (Table.not_mem_empty p)
  found := nofun

theorem Sound.lt {s : FirmwareFlasher} (hs : s.Sound) {p : String × ℕ}
    (hp : p ∈ s.remainingSerials) : p.2 < s.devices.length := by
  obtain ⟨device, hd, -⟩ := Option.map_eq_some_iff.mp (hs.named p hp)
  exact (List.getElem?_eq_some_iff.mp hd).1

/-- An entry leads to a device of its serial. -/
theorem Sound.serial {s : FirmwareFlasher} (hs : s.Sound) {p : String × ℕ}
    (hp : p ∈ s.remainingSerials) {device : Device} (hd : s.devices[p.2]? = some device) :
    device.serial = p.1 := by
  have hname := hs.named p hp
  rw [hd, Option.map_some] at hname
  exact Option.some.inj hname

/-- Queuing makes a device, and leaves the others. -/
@[simp] theorem getElem?_queue {s : FirmwareFlasher} {serial path : String} {d : ℕ}
    (h : d < s.devices.length) : (queue path s serial).devices[d]? = s.devices[d]? :=
  List.getElem?_append_left h

@[simp] theorem getElem?_queue_length {s : FirmwareFlasher} {serial path : String} :
    (queue path s serial).devices[s.devices.length]? = some ⟨serial, path, false⟩ :=
  List.getElem?_concat_length

theorem Sound.queue {s : FirmwareFlasher} (hs : s.Sound) {serial path : String} :
    (queue path s serial).Sound := by
  refine ⟨fun p hp => ?_, fun d method ho => ?_⟩
  · rcases Table.mem_put.mp hp with rfl | ⟨hp, -⟩
    · simp
    · rw [getElem?_queue (hs.lt hp)]
      exact hs.named p hp
  · have hlt := hs.found d method ho
    show d < (s.devices ++ [_]).length
    rw [List.length_append]
    omega

theorem Sound.flash {s : FirmwareFlasher} (hs : s.Sound) {serials : List String} {path : String} :
    (s.flash serials path).Sound := by
  induction serials generalizing s with
  | nil => exact hs
  | cons x serials ih => exact ih hs.queue

/-- Queuing leaves the observer alone. -/
@[simp] theorem observer_flash {s : FirmwareFlasher} {serials : List String} {path : String} :
    (s.flash serials path).observer = s.observer := by
  induction serials generalizing s with
  | nil => rfl
  | cons x serials ih => exact ih

/-- A device keeps its serial through an upload. -/
theorem map_serial_set {s : FirmwareFlasher} {d : ℕ} {device : Device} {finished : Bool}
    (hd : s.devices[d]? = some device) (j : ℕ) :
    (s.devices.set d { device with uploadFinished := finished })[j]?.map Device.serial =
      s.devices[j]?.map Device.serial := by
  rw [List.getElem?_set]
  split
  · rename_i hdj
    subst hdj
    rw [if_pos (List.getElem?_eq_some_iff.mp hd).1, hd]
    rfl
  · rfl

theorem sound_step {s t : FirmwareFlasher} {i : FlasherInput} (hs : s.Sound)
    (h : s.step i = some t) : t.Sound := by
  cases rule_of_step h with
  | quiet hi ho =>
    rcases ho with rfl | rfl | rfl
    · exact ⟨hs.named, hs.found⟩
    · exact ⟨hs.named, nofun⟩
    · exact ⟨hs.named, nofun⟩
  | flash => exact hs.flash
  | found hd =>
    refine ⟨hs.named, fun d' method' ho => ?_⟩
    obtain ⟨rfl, -⟩ := Observer.found.inj ho
    exact hs.lt hd
  | uploaded ho hd hupload =>
    exact ⟨fun p hp => (map_serial_set hd p.2).trans (hs.named p hp), nofun⟩
  | done ho hserial => exact ⟨fun p hp => hs.named p (Table.mem_delete.mp hp).1, nofun⟩
  | failed ho hserial => exact ⟨fun p hp => hs.named p (Table.mem_delete.mp hp).1, nofun⟩
  | clear hi => exact ⟨fun p hp => absurd hp (Table.not_mem_empty p), hs.found⟩
  | take => exact ⟨hs.named, hs.found⟩
  | started ho hmethod hd hfinished => exact ⟨hs.named, nofun⟩
  | uploadFail ho hd hupload => exact ⟨hs.named, nofun⟩
  | uploadRaises ho hupload => exact ⟨hs.named, nofun⟩
  | popRaises ho hserial => exact ⟨hs.named, nofun⟩

end FirmwareFlasher

end UsbipIce.Utils
