import UsbipIce.Worker.Device

/-!
# The state classes of a worker

The classes of `worker/device/state`: `FlashState`, `TestState`, `ReadyState`
and `BrokenState`, through which `__flashDefault` takes a device, and the
classes a reservation may ask for. `UsbipIce.Worker.states` is the table of
their commands, as `UsbipIce.StateTable` wants it.

What a method finds outside is one `UsbipIce.Worker.Outside`: the device file
of an event, the device files that are there already, and what becomes of an
upload, a check of the firmware or an attempt to open a port.
-/

namespace UsbipIce.Worker

/-! ### Factories -/

/-- A firmware path of the configuration. -/
inductive Firmware where
  | defaultFirmware
  | pulseFirmware
  deriving DecidableEq, Repr

/-- The state factories, each named by the class it makes and the arguments it
passes. -/
inductive StateFactory where
  | flash (firmware : Firmware) (next : StateFactory) (timeout : Option ℕ)
  | test
  | ready
  | broken
  | pulseCountFlasher
  | pulseCount
  | usbip
  deriving DecidableEq, Repr

/-! ### What methods find outside -/

/-- A device file as `udev` describes it. -/
structure DevFile where
  devname : Option String
  subsystem : Option String
  devtype : Option String
  idUsbInterfaceNum : Option String

/-- What becomes of `upload_firmware_path`, `check_default` or
`serial.Serial`. -/
inductive Answer where
  | success
  | failure
  | raises

/-- What a method finds outside. -/
structure Outside where
  /-- The device file of the event. -/
  dev : DevFile
  /-- What becomes of the one call the method makes. -/
  answer : Answer
  /-- `get_devs().get(serial)`, with what becomes of an upload to each file. -/
  devs : List (DevFile × Answer)

/-- `not dev.get("DEVNAME")`. -/
def DevFile.unnamed (dev : DevFile) : Bool := dev.devname.all (· == "")

/-! ### The methods -/

/-- `FlashState.handleAdd`. -/
def flashHandleAdd (next : StateFactory) (dev : DevFile) (uploaded : Answer) :
    List (Command StateFactory) :=
  if dev.unnamed then []
  else if dev.subsystem = some "tty" then []
  else if dev.devtype = some "partition" then
    match uploaded with
    | .success => [.cancelTimer, .switch next]
    | .failure => [.cancelTimer, .switch .broken]
    | .raises => [.raise]
  else []

/-- `FlashState.start`. -/
def flashStart (next : StateFactory) (devs : List (DevFile × Answer)) :
    List (Command StateFactory) :=
  devs.flatMap fun x => .returnIfSwitching :: flashHandleAdd next x.1 x.2

/-- `TestState.handleAdd`; `check_default` catches every exception. -/
def testHandleAdd (dev : DevFile) (checked : Answer) : List (Command StateFactory) :=
  if dev.unnamed then []
  else
    match checked with
    | .success => [.returnIfExiting, .cancelTimer, .switch .ready]
    | .failure | .raises => [.returnIfExiting]

/-- `PulseCountState.__init__`: without a port it switches, and goes on to fail
at using it. -/
def pulseCountInit (devs : List (DevFile × Answer)) (opened : Answer) :
    List (Command StateFactory) :=
  if devs.any (fun x => x.1.idUsbInterfaceNum == some "00") then
    match opened with
    | .success => []
    | .failure | .raises => [.raise]
  else [.switch .broken, .raise]

/-- **The commands of every method.** `UsbipState.__init__` calls methods its
device does not have. -/
def code : Method → StateFactory → Outside → List (Command StateFactory)
  | .init, .flash _ _ timeout, _ => if timeout.any (· ≠ 0) then [.startTimer .broken] else []
  | .start, .flash _ next _, x => flashStart next x.devs
  | .handleAdd, .flash _ next _, x => flashHandleAdd next x.dev x.answer
  | .init, .test, _ => [.updateDeviceStatus .testing, .startTimer .broken]
  | .handleAdd, .test, x => testHandleAdd x.dev x.answer
  | .init, .ready, _ => [.updateDeviceStatus .available]
  | .init, .broken, _ => [.updateDeviceStatus .broken]
  | .start, .pulseCountFlasher, _ => [.switch (.flash .pulseFirmware .pulseCount none)]
  | .init, .pulseCount, x => pulseCountInit x.devs x.answer
  | .handleRequest, .pulseCount, x =>
    match x.answer with
    | .success => []
    | .failure | .raises => [.raise]
  | .init, .usbip, _ => [.raise]
  | _, _, _ => []

/-- The factory of `Device.__flashDefault`. -/
def flashDefault : StateFactory := .flash .defaultFirmware .test (some 60)

/-- `get_reservation_state_fac`: the classes registered as `reservable`. -/
def reservationStateFac (kind : String) : Option StateFactory :=
  if kind = "pulsecount" then some .pulseCountFlasher
  else if kind = "usbip" then some .usbip
  else none

/-- The state classes of the source. -/
def states : StateTable StateFactory Outside := ⟨code, flashDefault, reservationStateFac⟩

/-! ### What the methods may do -/

/-- **What a method may do**: to the status, only constructors, each in its own
way; timers lead to `BrokenState`; and each class switches to its successors. -/
def MayDo (m : Method) (f : StateFactory) : Command StateFactory → Prop
  | .updateDeviceStatus st => m = .init ∧
    (f = .test ∧ st = .testing ∨ f = .ready ∧ st = .available ∨ f = .broken ∧ st = .broken)
  | .startTimer g => m = .init ∧ g = .broken ∧
    (f = .test ∨ ∃ firmware next timeout, f = .flash firmware next timeout)
  | .switch g =>
    (m ≠ .init ∧ ∃ firmware next timeout, f = .flash firmware next timeout ∧
      (g = next ∨ g = .broken)) ∨
    (m = .handleAdd ∧ f = .test ∧ g = .ready) ∨
    (m = .start ∧ f = .pulseCountFlasher ∧ g = .flash .pulseFirmware .pulseCount none) ∨
    (m = .init ∧ f = .pulseCount ∧ g = .broken)
  | .cancelTimer | .returnIfSwitching | .returnIfExiting | .raise => True

theorem mayDo_flashHandleAdd {m : Method} {firmware : Firmware} {next : StateFactory}
    {timeout : Option ℕ} (hm : m ≠ .init) {dev : DevFile} {uploaded : Answer}
    {c : Command StateFactory} (hc : c ∈ flashHandleAdd next dev uploaded) :
    MayDo m (.flash firmware next timeout) c := by
  have hswitch : ∀ g, g = next ∨ g = .broken → MayDo m (.flash firmware next timeout) (.switch g) :=
    fun g hg => Or.inl ⟨hm, firmware, next, timeout, rfl, hg⟩
  rw [flashHandleAdd.eq_def] at hc
  split at hc
  · exact absurd hc List.not_mem_nil
  split at hc
  · exact absurd hc List.not_mem_nil
  split at hc
  · match uploaded with
    | .success =>
      obtain rfl | rfl : c = .cancelTimer ∨ c = .switch next := by simpa using hc
      · trivial
      · exact hswitch next (Or.inl rfl)
    | .failure =>
      obtain rfl | rfl : c = .cancelTimer ∨ c = .switch .broken := by simpa using hc
      · trivial
      · exact hswitch .broken (Or.inr rfl)
    | .raises =>
      obtain rfl : c = .raise := by simpa using hc
      trivial
  · exact absurd hc List.not_mem_nil

/-- **Every command of a method is one it may do.** -/
theorem mayDo_of_mem_code {m : Method} {f : StateFactory} {x : Outside} {c : Command StateFactory}
    (hc : c ∈ code m f x) : MayDo m f c := by
  rw [code.eq_def] at hc
  split at hc
  · split at hc
    · obtain rfl := List.mem_singleton.mp hc
      exact ⟨rfl, rfl, Or.inr ⟨_, _, _, rfl⟩⟩
    · exact absurd hc List.not_mem_nil
  · obtain ⟨y, -, hy⟩ := List.mem_flatMap.mp hc
    rcases List.mem_cons.mp hy with rfl | hy
    · trivial
    · exact mayDo_flashHandleAdd (by simp) hy
  · exact mayDo_flashHandleAdd (by simp) hc
  · obtain rfl | rfl :
        c = .updateDeviceStatus .testing ∨ c = .startTimer .broken := by simpa using hc
    · exact ⟨rfl, Or.inl ⟨rfl, rfl⟩⟩
    · exact ⟨rfl, rfl, Or.inl rfl⟩
  · rw [testHandleAdd.eq_def] at hc
    split at hc
    · exact absurd hc List.not_mem_nil
    · split at hc
      · obtain rfl | rfl | rfl : c = .returnIfExiting ∨ c = .cancelTimer ∨ c = .switch .ready := by
          simpa using hc
        · trivial
        · trivial
        · exact Or.inr (Or.inl ⟨rfl, rfl, rfl⟩)
      all_goals
        obtain rfl := List.mem_singleton.mp hc
        trivial
  · obtain rfl := List.mem_singleton.mp hc
    exact ⟨rfl, Or.inr (Or.inl ⟨rfl, rfl⟩)⟩
  · obtain rfl := List.mem_singleton.mp hc
    exact ⟨rfl, Or.inr (Or.inr ⟨rfl, rfl⟩)⟩
  · obtain rfl := List.mem_singleton.mp hc
    exact Or.inr (Or.inr (Or.inl ⟨rfl, rfl, rfl⟩))
  · rw [pulseCountInit.eq_def] at hc
    split at hc
    · split at hc
      · exact absurd hc List.not_mem_nil
      all_goals
        obtain rfl := List.mem_singleton.mp hc
        trivial
    · obtain rfl | rfl : c = .switch .broken ∨ c = .raise := by simpa using hc
      · exact Or.inr (Or.inr (Or.inr ⟨rfl, rfl, rfl⟩))
      · trivial
  · split at hc
    · exact absurd hc List.not_mem_nil
    all_goals
      obtain rfl := List.mem_singleton.mp hc
      trivial
  · obtain rfl := List.mem_singleton.mp hc
    trivial
  · exact absurd hc List.not_mem_nil

end UsbipIce.Worker
