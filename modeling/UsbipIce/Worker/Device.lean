import UsbipIce.Lib.Machine
import UsbipIce.Lib.Pool
import UsbipIce.Control.Database

/-!
# A worker's device and its state objects

`Device` of `worker/device/Device.py` holds one state object at a time and
replaces it in `Device.switch`: exit the old object, call the factory, install
the new one and start it, all under a reentrant lock. What a state object does
there is left to a table of state classes (`UsbipIce.StateTable`), which gives
for each method of each class the commands it runs, depending on what it finds
outside: `UsbipIce.Worker.states` is the table of the source.

`switch` is entered in two ways. `AbstractState.switch`, called by a state
object, first sets the object's `_switching` flag and does nothing when it is
set already. `handleReserve` and `handleUnreserve` call `Device.switch`
directly, and no flag is set.

The thread that holds the lock keeps a stack of the calls it is in, since
`switch` may be called again from a constructor, from `start` or from
`handleAdd`; the other threads wait for the lock in a pool. One step of the
machine is one command, one phase of `Device.switch`, or one section of a
waiting thread.
-/

namespace UsbipIce

open Lib

/-! ### State classes -/

/-- A method of a state object that runs under the device's lock. -/
inductive Method where
  | init
  | start
  | handleAdd
  | handleRemove
  | handleRequest
  deriving DecidableEq, Repr

/-- What the methods of state objects do to the device, its timers and its
status. -/
inductive Command (F : Type*) where
  /-- `database.updateDeviceStatus(serial, st)`. -/
  | updateDeviceStatus (st : DeviceState)
  /-- Start `self.timer`, whose callback switches to the given factory. -/
  | startTimer (next : F)
  /-- `self.timer.cancel()`. -/
  | cancelTimer
  /-- `self.switch(next)`. -/
  | switch (next : F)
  /-- `if self.switching: return`. -/
  | returnIfSwitching
  /-- `if self.exiting: return`, then `self.exiting = True`. -/
  | returnIfExiting
  /-- An exception, which nothing under the lock catches. -/
  | raise
  deriving DecidableEq, Repr

/-- The state classes of a worker: `F` is the state factories, `I` is what a
method may find outside. -/
structure StateTable (F I : Type*) where
  /-- The commands of a method of the object a factory makes. -/
  code : Method → F → I → List (Command F)
  /-- The factory of `Device.__flashDefault`. -/
  flashDefault : F
  /-- `get_reservation_state_fac`. -/
  reservationStateFac : String → Option F

/-- A state object. -/
structure StateObject (F : Type*) where
  /-- The factory that made it. -/
  factory : F
  /-- `_switching`. -/
  switching : Bool
  /-- `exiting`, of the classes that have it. -/
  exiting : Bool
  /-- The factory the object's timer switches to, while the timer waits. -/
  timer : Option F
  deriving DecidableEq, Repr

/-! ### The device -/

/-- A call the thread holding the lock is in. -/
inductive Frame (F : Type*) where
  /-- A method of object `o`, with the commands that are left. -/
  | code (o : ℕ) (commands : List (Command F))
  /-- `Device.switch`, about to exit the current object. -/
  | handleExit
  /-- `Device.switch`, about to call the factory. -/
  | stateFactory (f : F)
  /-- `Device.switch`, about to install object `o` and start it. -/
  | install (o : ℕ)
  /-- `handleDeviceEvent`, holding `switching_lock` of object `o`. -/
  | unlock (o : ℕ)
  deriving DecidableEq, Repr

/-- The call holds `switching_lock` of an object. -/
def Frame.unlocks {F : Type*} (o : ℕ) : Frame F → Bool
  | .unlock o' => decide (o' = o)
  | .code .. | .handleExit | .stateFactory _ | .install _ => false

/-- A thread that does not hold the lock. -/
inductive DeviceThread (F : Type*) where
  /-- In `__flashDefault`, about to write the status. -/
  | flashDefault
  /-- In `Device.switch`, called by the device itself. -/
  | deviceSwitch (f : F)
  /-- The callback of a timer of object `o`, about to call its `switch`. -/
  | timer (o : ℕ) (f : F)
  /-- In `Device.switch`, called by `AbstractState.switch` of object `o`. -/
  | stateSwitch (o : ℕ) (f : F)
  deriving DecidableEq, Repr

/-- A `Device`. -/
structure Device (F : Type*) where
  /-- Every state object made so far. -/
  objects : List (StateObject F)
  /-- `_device`. -/
  current : Option ℕ
  /-- The calls of the thread holding `_device_lock`, the innermost first. -/
  stack : List (Frame F)
  /-- The other threads. -/
  threads : List (DeviceThread F)

/-- The command may do nothing, or leave its method. -/
def Command.conditional {F : Type*} : Command F → Bool
  | .switch _ | .returnIfSwitching | .returnIfExiting => true
  | .updateDeviceStatus _ | .startTimer _ | .cancelTimer | .raise => false

/-- What a step shows outside of the device. -/
inductive Effect where
  /-- The status is written. -/
  | status (st : DeviceState)
  /-- `handleExit` of the object is called by `switch`. -/
  | exit (o : ℕ)
  /-- The object is installed as `_device`, and its `start` is called. -/
  | start (o : ℕ)
  /-- A handler of the object is called. -/
  | dispatch (handler : Method) (o : ℕ)
  deriving DecidableEq, Repr

/-- A device with the effects it has shown, the latest first. -/
structure DeviceRun (F : Type*) where
  device : Device F
  log : List Effect

/-- What goes on inside a device. -/
inductive DeviceStep (I : Type*) where
  /-- The thread holding the lock goes on. -/
  | exec (outside : I)
  /-- `handleDeviceEvent` with an `add` (`true`) or a `remove`. -/
  | event (add : Bool) (outside : I)
  /-- `handleRequest`. -/
  | request (outside : I)
  /-- The timer of object `o` runs out. -/
  | fire (o : ℕ)
  /-- Thread `k` of the pool goes on. -/
  | thread (k : ℕ)

/-- What happens to a device. -/
inductive DeviceInput (I : Type*) where
  | handleReserve (kind : String)
  | handleUnreserve
  | step (i : DeviceStep I)

namespace StateTable

variable {F I : Type*} (P : StateTable F I)

/-- `Device.__init__`, which ends in `__flashDefault`. -/
def init (_ : StateTable F I) : Device F := ⟨[], none, [], [.flashDefault]⟩

/-- `Device.handleReserve`. -/
def handleReserve (d : Device F) (kind : String) : Device F :=
  match P.reservationStateFac kind with
  | none => d
  | some f => { d with threads := d.threads ++ [.deviceSwitch f] }

/-- `Device.handleUnreserve`. -/
def handleUnreserve (_ : StateTable F I) (d : Device F) : Device F :=
  { d with threads := d.threads ++ [.flashDefault] }

/-- A command of object `o`, with the commands after it and the calls around
it. -/
def command (_ : StateTable F I) (d : Device F) (o : ℕ) (obj : StateObject F)
    (cs : List (Command F))
    (rest : List (Frame F)) : Command F → Device F × Option Effect
  | .updateDeviceStatus st => ({ d with stack := .code o cs :: rest }, some (.status st))
  | .startTimer f =>
    ({ d with
       objects := d.objects.set o { obj with timer := some f }
       stack := .code o cs :: rest }, none)
  | .cancelTimer =>
    ({ d with
       objects := d.objects.set o { obj with timer := none }
       stack := .code o cs :: rest }, none)
  | .switch f =>
    if obj.switching then ({ d with stack := .code o cs :: rest }, none)
    else
      ({ d with
         objects := d.objects.set o { obj with switching := true }
         stack := .handleExit :: .stateFactory f :: .code o cs :: rest }, none)
  | .returnIfSwitching =>
    if obj.switching then ({ d with stack := rest }, none)
    else ({ d with stack := .code o cs :: rest }, none)
  | .returnIfExiting =>
    if obj.exiting then ({ d with stack := rest }, none)
    else
      ({ d with
         objects := d.objects.set o { obj with exiting := true }
         stack := .code o cs :: rest }, none)
  | .raise => ({ d with stack := [] }, none)

/-- The thread holding the lock goes on; `outside` is what a method that begins
here finds. -/
def exec (d : Device F) (outside : I) : Option (Device F × Option Effect) :=
  match d.stack with
  | [] => none
  | .unlock _ :: rest => some ({ d with stack := rest }, none)
  | .handleExit :: rest => some ({ d with stack := rest }, d.current.map .exit)
  | .stateFactory f :: rest => some
    ({ d with
       objects := d.objects ++ [⟨f, false, false, none⟩]
       stack := .code d.objects.length (P.code .init f outside) ::
         .install d.objects.length :: rest }, none)
  | .install o :: rest => (d.objects[o]?).map fun obj =>
    ({ d with current := some o, stack := .code o (P.code .start obj.factory outside) :: rest },
      some (.start o))
  | .code _ [] :: rest => some ({ d with stack := rest }, none)
  | .code o (c :: cs) :: rest => (d.objects[o]?).map fun obj => P.command d o obj cs rest c

/-- A thread of the pool goes on. The threads in `Device.switch` wait for the
lock; a timer's callback waits while an event handler holds `switching_lock`
of its object. -/
def thread (d : Device F) (k : ℕ) : DeviceThread F → Option (Device F × Option Effect)
  | .flashDefault => some
    ({ d with threads := d.threads.set k (.deviceSwitch P.flashDefault) },
      some (.status .flashingDefault))
  | .deviceSwitch f | .stateSwitch _ f =>
    match d.stack with
    | _ :: _ => none
    | [] => some
      ({ d with stack := [.handleExit, .stateFactory f], threads := d.threads.eraseIdx k }, none)
  | .timer o f =>
    if d.stack.any (Frame.unlocks o) then none
    else (d.objects[o]?).map fun obj =>
      if obj.switching then ({ d with threads := d.threads.eraseIdx k }, none)
      else
        ({ d with
           objects := d.objects.set o { obj with switching := true }
           threads := d.threads.set k (.stateSwitch o f) }, none)

/-- The name of an event's handler. -/
def handler (add : Bool) : Method := if add then .handleAdd else .handleRemove

/-- One step inside a device. -/
def step (d : Device F) : DeviceStep I → Option (Device F × Option Effect)
  | .exec outside => P.exec d outside
  | .event add outside =>
    match d.stack, d.current with
    | _ :: _, _ => none
    | [], none => some (d, none)
    | [], some o => (d.objects[o]?).map fun obj =>
      ({ d with stack := [.code o (P.code (handler add) obj.factory outside), .unlock o] },
        some (.dispatch (handler add) o))
  | .request outside =>
    match d.stack, d.current with
    | _ :: _, _ => none
    | [], none => some (d, none)
    | [], some o => (d.objects[o]?).map fun obj =>
      ({ d with stack := [.code o (P.code .handleRequest obj.factory outside)] },
        some (.dispatch .handleRequest o))
  | .fire o =>
    match d.objects[o]? with
    | some ⟨factory, switching, exiting, some f⟩ => some
      ({ d with
         objects := d.objects.set o ⟨factory, switching, exiting, none⟩
         threads := d.threads ++ [.timer o f] }, none)
    | _ => none
  | .thread k => (d.threads[k]?).bind fun t => P.thread d k t

/-- A device with its log, driven by everything that happens to it. -/
def runStep (r : DeviceRun F) : DeviceInput I → Option (DeviceRun F)
  | .handleReserve kind => some { r with device := P.handleReserve r.device kind }
  | .handleUnreserve => some { r with device := P.handleUnreserve r.device }
  | .step i => (P.step r.device i).map fun x => ⟨x.1, x.2.toList ++ r.log⟩

/-- A device as a machine. -/
def machine : Machine (DeviceRun F) (DeviceInput I) := ⟨P.runStep⟩

/-- A new device, which has shown nothing. -/
def start : DeviceRun F := ⟨P.init, []⟩

/-! ### What a step can do -/

variable {P}

/-- **The rules**: every way in which a step changes a device and shows an
effect. -/
inductive Rule (P : StateTable F I) (d : Device F) :
    DeviceStep I → Device F → Option Effect → Prop
  /-- A method returns. -/
  | pop {x : I} {o : ℕ} {cs : List (Command F)} {rest : List (Frame F)}
      (hs : d.stack = .code o cs :: rest) (hcs : cs.head?.all Command.conditional) :
      Rule P d (.exec x) { d with stack := rest } none
  /-- An event handler releases the lock of its object. -/
  | unlock {x : I} {o : ℕ} {rest : List (Frame F)} (hs : d.stack = .unlock o :: rest) :
      Rule P d (.exec x) { d with stack := rest } none
  /-- A command does nothing: `switch` finds the flag set, or a `return` is not
  taken. -/
  | skip {x : I} {o : ℕ} {c : Command F} {cs : List (Command F)} {rest : List (Frame F)}
      (hs : d.stack = .code o (c :: cs) :: rest) (hc : c.conditional) :
      Rule P d (.exec x) { d with stack := .code o cs :: rest } none
  /-- A status is written. -/
  | status {x : I} {o : ℕ} {st : DeviceState} {cs : List (Command F)} {rest : List (Frame F)}
      (hs : d.stack = .code o (.updateDeviceStatus st :: cs) :: rest) :
      Rule P d (.exec x) { d with stack := .code o cs :: rest } (some (.status st))
  /-- An object notes that it is exiting. -/
  | mark {x : I} {o : ℕ} {obj : StateObject F} {cs : List (Command F)}
      {rest : List (Frame F)} (hs : d.stack = .code o (.returnIfExiting :: cs) :: rest)
      (hobj : d.objects[o]? = some obj) :
      Rule P d (.exec x)
        { d with
          objects := d.objects.set o { obj with exiting := true }
          stack := .code o cs :: rest } none
  /-- A timer is started. -/
  | startTimer {x : I} {o : ℕ} {obj : StateObject F} {f : F} {cs : List (Command F)}
      {rest : List (Frame F)} (hs : d.stack = .code o (.startTimer f :: cs) :: rest)
      (hobj : d.objects[o]? = some obj) :
      Rule P d (.exec x)
        { d with
          objects := d.objects.set o { obj with timer := some f }
          stack := .code o cs :: rest } none
  /-- A timer is cancelled. -/
  | cancelTimer {x : I} {o : ℕ} {obj : StateObject F} {cs : List (Command F)}
      {rest : List (Frame F)} (hs : d.stack = .code o (.cancelTimer :: cs) :: rest)
      (hobj : d.objects[o]? = some obj) :
      Rule P d (.exec x)
        { d with
          objects := d.objects.set o { obj with timer := none }
          stack := .code o cs :: rest } none
  /-- An object enters `Device.switch`. -/
  | switch {x : I} {o : ℕ} {obj : StateObject F} {f : F} {cs : List (Command F)}
      {rest : List (Frame F)} (hs : d.stack = .code o (.switch f :: cs) :: rest)
      (hobj : d.objects[o]? = some obj) (hflag : obj.switching = false) :
      Rule P d (.exec x)
        { d with
          objects := d.objects.set o { obj with switching := true }
          stack := .handleExit :: .stateFactory f :: .code o cs :: rest } none
  /-- An exception leaves every call. -/
  | raise {x : I} {o : ℕ} {cs : List (Command F)} {rest : List (Frame F)}
      (hs : d.stack = .code o (.raise :: cs) :: rest) :
      Rule P d (.exec x) { d with stack := [] } none
  /-- The current object is exited. -/
  | exit {x : I} {rest : List (Frame F)} (hs : d.stack = .handleExit :: rest) :
      Rule P d (.exec x) { d with stack := rest } (d.current.map .exit)
  /-- The factory makes an object. -/
  | build {x : I} {f : F} {rest : List (Frame F)} (hs : d.stack = .stateFactory f :: rest) :
      Rule P d (.exec x)
        { d with
          objects := d.objects ++ [⟨f, false, false, none⟩]
          stack := .code d.objects.length (P.code .init f x) ::
            .install d.objects.length :: rest } none
  /-- The object is installed and started. -/
  | install {x : I} {o : ℕ} {obj : StateObject F} {rest : List (Frame F)}
      (hs : d.stack = .install o :: rest) (hobj : d.objects[o]? = some obj) :
      Rule P d (.exec x)
        { d with current := some o, stack := .code o (P.code .start obj.factory x) :: rest }
        (some (.start o))
  /-- Nothing is there to handle an event or a request. -/
  | idle {i : DeviceStep I} : Rule P d i d none
  /-- An event is dispatched to the current object. -/
  | event {add : Bool} {x : I} {o : ℕ} {obj : StateObject F} (hs : d.stack = [])
      (hcur : d.current = some o) (hobj : d.objects[o]? = some obj) :
      Rule P d (.event add x)
        { d with stack := [.code o (P.code (handler add) obj.factory x), .unlock o] }
        (some (.dispatch (handler add) o))
  /-- A request is dispatched to the current object. -/
  | request {x : I} {o : ℕ} {obj : StateObject F} (hs : d.stack = [])
      (hcur : d.current = some o) (hobj : d.objects[o]? = some obj) :
      Rule P d (.request x)
        { d with stack := [.code o (P.code .handleRequest obj.factory x)] }
        (some (.dispatch .handleRequest o))
  /-- A timer runs out. -/
  | fire {o : ℕ} {obj : StateObject F} {f : F} (hobj : d.objects[o]? = some obj)
      (htimer : obj.timer = some f) :
      Rule P d (.fire o)
        { d with
          objects := d.objects.set o { obj with timer := none }
          threads := d.threads ++ [.timer o f] } none
  /-- `__flashDefault` writes the status. -/
  | flashDefault {k : ℕ} (hk : d.threads[k]? = some .flashDefault) :
      Rule P d (.thread k)
        { d with threads := advance d.threads k (some (.deviceSwitch P.flashDefault)) }
        (some (.status .flashingDefault))
  /-- The device itself enters `Device.switch`. -/
  | deviceSwitch {k : ℕ} {f : F} (hk : d.threads[k]? = some (.deviceSwitch f))
      (hs : d.stack = []) :
      Rule P d (.thread k)
        { d with stack := [.handleExit, .stateFactory f], threads := advance d.threads k none } none
  /-- An object's switch enters `Device.switch` after waiting for the lock. -/
  | stateSwitch {k o : ℕ} {f : F} (hk : d.threads[k]? = some (.stateSwitch o f))
      (hs : d.stack = []) :
      Rule P d (.thread k)
        { d with stack := [.handleExit, .stateFactory f], threads := advance d.threads k none } none
  /-- A timer's callback finds the flag set. -/
  | timerIgnored {k o : ℕ} {f : F} {obj : StateObject F}
      (hk : d.threads[k]? = some (.timer o f)) (hobj : d.objects[o]? = some obj)
      (hflag : obj.switching = true) :
      Rule P d (.thread k) { d with threads := advance d.threads k none } none
  /-- A timer's callback sets the flag. -/
  | timerSwitch {k o : ℕ} {f : F} {obj : StateObject F}
      (hk : d.threads[k]? = some (.timer o f)) (hobj : d.objects[o]? = some obj)
      (hflag : obj.switching = false) :
      Rule P d (.thread k)
        { d with
          objects := d.objects.set o { obj with switching := true }
          threads := advance d.threads k (some (.stateSwitch o f)) } none

theorem rule_of_command {d : Device F} {x : I} {o : ℕ} {obj : StateObject F} {c : Command F}
    {cs : List (Command F)} {rest : List (Frame F)} (hs : d.stack = .code o (c :: cs) :: rest)
    (hobj : d.objects[o]? = some obj) :
    Rule P d (.exec x) (P.command d o obj cs rest c).1 (P.command d o obj cs rest c).2 := by
  match c with
  | .updateDeviceStatus st => exact .status hs
  | .startTimer f => exact .startTimer hs hobj
  | .cancelTimer => exact .cancelTimer hs hobj
  | .switch f =>
    rw [command]
    split
    · exact .skip hs rfl
    · exact .switch hs hobj (Bool.not_eq_true _ ▸ ‹_›)
  | .returnIfSwitching =>
    rw [command]
    split
    · exact .pop hs rfl
    · exact .skip hs rfl
  | .returnIfExiting =>
    rw [command]
    split
    · exact .pop hs rfl
    · exact .mark hs hobj
  | .raise => exact .raise hs

theorem rule_of_thread {d d' : Device F} {k : ℕ} {t : DeviceThread F} {e : Option Effect}
    (hk : d.threads[k]? = some t) (h : P.thread d k t = some (d', e)) :
    Rule P d (.thread k) d' e := by
  match t with
  | .flashDefault =>
    obtain ⟨rfl, rfl⟩ := Prod.mk.inj (Option.some.inj h)
    exact .flashDefault hk
  | .deviceSwitch f =>
    rw [thread] at h
    split at h
    · cases h
    · obtain ⟨rfl, rfl⟩ := Prod.mk.inj (Option.some.inj h)
      exact .deviceSwitch hk ‹_›
  | .stateSwitch o f =>
    rw [thread] at h
    split at h
    · cases h
    · obtain ⟨rfl, rfl⟩ := Prod.mk.inj (Option.some.inj h)
      exact .stateSwitch hk ‹_›
  | .timer o f =>
    rw [thread] at h
    split at h
    · cases h
    · obtain ⟨obj, hobj, heq⟩ := Option.map_eq_some_iff.mp h
      split at heq
      · obtain ⟨rfl, rfl⟩ := Prod.mk.inj heq
        exact .timerIgnored hk hobj ‹_›
      · obtain ⟨rfl, rfl⟩ := Prod.mk.inj heq
        exact .timerSwitch hk hobj (Bool.not_eq_true _ ▸ ‹_›)

/-- **Every step follows one of the rules.** -/
theorem rule_of_step {d d' : Device F} {i : DeviceStep I} {e : Option Effect}
    (h : P.step d i = some (d', e)) : Rule P d i d' e := by
  match i with
  | .exec x =>
    rw [step, exec] at h
    split at h
    · cases h
    · obtain ⟨rfl, rfl⟩ := Prod.mk.inj (Option.some.inj h)
      exact .unlock ‹_›
    · obtain ⟨rfl, rfl⟩ := Prod.mk.inj (Option.some.inj h)
      exact .exit ‹_›
    · obtain ⟨rfl, rfl⟩ := Prod.mk.inj (Option.some.inj h)
      exact .build ‹_›
    · obtain ⟨obj, hobj, heq⟩ := Option.map_eq_some_iff.mp h
      obtain ⟨rfl, rfl⟩ := Prod.mk.inj heq
      exact .install ‹_› hobj
    · obtain ⟨rfl, rfl⟩ := Prod.mk.inj (Option.some.inj h)
      exact .pop ‹_› rfl
    · obtain ⟨obj, hobj, heq⟩ := Option.map_eq_some_iff.mp h
      have hcmd := rule_of_command (P := P) (x := x) ‹_› hobj
      rwa [heq] at hcmd
  | .event add x =>
    rw [step] at h
    split at h
    · cases h
    · obtain ⟨rfl, rfl⟩ := Prod.mk.inj (Option.some.inj h)
      exact .idle
    · obtain ⟨obj, hobj, heq⟩ := Option.map_eq_some_iff.mp h
      obtain ⟨rfl, rfl⟩ := Prod.mk.inj heq
      exact .event ‹_› ‹_› hobj
  | .request x =>
    rw [step] at h
    split at h
    · cases h
    · obtain ⟨rfl, rfl⟩ := Prod.mk.inj (Option.some.inj h)
      exact .idle
    · obtain ⟨obj, hobj, heq⟩ := Option.map_eq_some_iff.mp h
      obtain ⟨rfl, rfl⟩ := Prod.mk.inj heq
      exact .request ‹_› ‹_› hobj
  | .fire o =>
    rw [step] at h
    split at h
    · rename_i factory switching exiting f hobj
      obtain ⟨rfl, rfl⟩ := Prod.mk.inj (Option.some.inj h)
      exact .fire hobj rfl
    · cases h
  | .thread k =>
    obtain ⟨t, hk, ht⟩ := Option.bind_eq_some_iff.mp h
    exact rule_of_thread hk ht

/-- What an input does to the device and its log. -/
theorem runStep_cases {r r' : DeviceRun F} {i : DeviceInput I} (h : P.runStep r i = some r') :
    (∃ t, r' = { r with device := { r.device with threads := r.device.threads ++ t } } ∧
        ∀ x ∈ t, x = .flashDefault ∨ ∃ kind f, P.reservationStateFac kind = some f ∧
          x = .deviceSwitch f) ∨
      ∃ j e, i = .step j ∧ Rule P r.device j r'.device e ∧ r'.log = e.toList ++ r.log := by
  match i with
  | .handleReserve kind =>
    obtain rfl := Option.some.inj h
    refine Or.inl ?_
    rw [handleReserve]
    split
    · exact ⟨[], by rw [List.append_nil], by simp⟩
    · rename_i f hf
      exact ⟨[.deviceSwitch f], rfl, by simpa using ⟨kind, hf⟩⟩
  | .handleUnreserve =>
    obtain rfl := Option.some.inj h
    exact Or.inl ⟨[.flashDefault], rfl, by simp⟩
  | .step j =>
    obtain ⟨⟨d', e⟩, hstep, rfl⟩ := Option.map_eq_some_iff.mp h
    exact Or.inr ⟨j, e, rfl, rule_of_step hstep, rfl⟩

end StateTable

end UsbipIce
