import Mathlib.Algebra.Order.Ring.Rat
import Mathlib.Tactic.Linarith
import UsbipIce.Lib.Machine
import UsbipIce.Utils.UsbipPort

/-!
# Devices that do not come back

`UsbipHandler` watches the devices that a client has attached. A thread of its own
polls `usbip port`, looks in one loop for the devices that have been silent for
longer than the timeout, and in a second loop has each of them unbound by its
worker. Other threads deliver what happens meanwhile: a device file is added, a
device is exported, a reservation ends.

A device that was just unbound is to have the timeout to come back. The handler
moves `last_event` into the future for this, *before* it asks for the unbind, and
the object it moves it in is the one it has found in the dictionary before. Two
things can therefore go wrong with a request: it goes out later than what was
noted, or the device has another object by then. And since the poll thread does not
take the lock under which the others change the dictionary, a third: its first loop
can leave out a device, whose flag of an earlier poll then counts a second time.

Where none of this happens, two requests for a device are more than the timeout
apart, whatever the threads do (`UsbipIce.UsbipHandler.spaced_of_meets`): a request
is never later than the `last_event` of what the dictionary has for the serial
(`UsbipIce.UsbipHandler.Inv`), and a check that finds a timeout is later than that
by more than the timeout.
-/

namespace UsbipIce.UsbipHandler

open Lib Utils

/-! ### `DeviceStatus` -/

/-- The fields of a `DeviceStatus` that change or are read. The reading of the clock
that `timed_out` comes from is kept with it. -/
structure DeviceStatus where
  ip : List Char
  bus : List Char
  lastEvent : ℚ
  timedOut : Bool
  checkedAt : ℚ

/-- The default of the parameter `delay`, which no caller gives. -/
def delay : ℚ := 15

namespace DeviceStatus

variable (d : DeviceStatus)

/-- `DeviceStatus(...)` -/
def new (ip bus : List Char) (now : ℚ) : DeviceStatus where
  ip := ip
  bus := bus
  lastEvent := now
  timedOut := false
  checkedAt := now

def updateBus (bus : List Char) (now : ℚ) : DeviceStatus :=
  { d with
    bus := bus
    lastEvent := max now d.lastEvent }

def deviceEvent (now : ℚ) : DeviceStatus := { d with lastEvent := max now d.lastEvent }

/-- Whether the bus of the device is among those connected to. -/
def connected (info : PortInfo) : Bool := (info.find? d.ip).any fun p => p.2.contains d.bus

/-- `checkTimeout`, which reads the clock up to two times. -/
def checkTimeout (timeout : ℚ) (info : PortInfo) (now₁ now₂ : ℚ) : DeviceStatus :=
  let lastEvent := if d.connected info then now₁ else d.lastEvent
  { d with
    lastEvent := lastEvent
    timedOut := decide (lastEvent < now₂ - timeout)
    checkedAt := now₂ }

/-- `hadTimeout`, where it returns true. -/
def pushed (now : ℚ) : DeviceStatus := { d with lastEvent := now + delay }

end DeviceStatus

/-! ### The poll thread -/

/-- A serial and the object it has. -/
abbrev Entry := String × ℕ

/-- A loop over the dictionary: the objects it is done with, and whether keys were
added or deleted since it began. -/
structure Iteration where
  done : List ℕ
  changed : Bool

/-- What the loop may go on with, or end with. It goes through the entries in their
order; where keys were added or deleted, it may leave out entries. -/
def Iteration.Yields (it : Iteration) (devices : Table Entry Prod.fst) (o : Option Entry) : Prop :=
  if it.changed then ∀ e ∈ o, e ∈ devices.rows ∧ e.2 ∉ it.done
  else o = devices.rows.find? fun e => e.2 ∉ it.done

instance (it : Iteration) (devices : Table Entry Prod.fst) (o : Option Entry) :
    Decidable (it.Yields devices o) := by
  unfold Iteration.Yields
  infer_instance

/-- The call that the second loop makes next for its device. -/
inductive Stage where
  | hadTimeout
  | deviceEvent
  | unbind
  deriving DecidableEq

/-- Where the poll thread is: in its sleep, in one of the loops with or without a
device, or at its end. -/
inductive Poll where
  | sleeping
  | checking (info : Option PortInfo) (it : Iteration) (dev : Option Entry)
  | reporting (it : Iteration) (dev : Option (Entry × Stage))
  | ended

/-- Keys of the dictionary are added or deleted. -/
def Poll.change : Poll → Poll
  | .checking info it dev => .checking info { it with changed := true } dev
  | .reporting it dev => .reporting { it with changed := true } dev
  | p => p

/-! ### The handler -/

/-- An unbind request: its time, and that of the check behind it. -/
structure Request where
  serial : String
  time : ℚ
  checkedAt : ℚ
  deriving DecidableEq

/-- The handler, with the last reading of the clock and the requests so far. An
object that `export` has made and not yet stored is kept apart: the lock is held
until it is stored. -/
structure State where
  now : ℚ
  devices : Table Entry Prod.fst
  status : ℕ → DeviceStatus
  next : ℕ
  storing : Option (String × DeviceStatus)
  poll : Poll
  requests : List Request

/-- What the threads do, with the readings of the clock. -/
inductive Input where
  /-- `exit` ends the sleep. -/
  | stop
  /-- `usbip_port` returns. -/
  | polled (result : PortResult)
  /-- A loop goes on with a device, or ends. -/
  | next (o : Option Entry)
  /-- A loop raises, since the dictionary has changed. -/
  | raises
  | checkTimeout (now₁ now₂ : ℚ)
  | hadTimeout (now : ℚ)
  | deviceEvent (now : ℚ)
  /-- The request goes out; `returns` says whether the call then returns. -/
  | unbind (now : ℚ) (returns : Bool)
  /-- A file of the device is added. -/
  | add (serial : String) (now : ℚ)
  | export (serial : String) (bus ip : List Char) (now : ℚ)
  /-- `self.devices[serial] = …` -/
  | store
  /-- A reservation ends, or the device fails. -/
  | remove (serial : String)

namespace State

def start (now : ℚ) : State where
  now := now
  devices := ∅
  status := fun _ => .new [] [] now
  next := 0
  storing := none
  poll := .sleeping
  requests := []

variable (timeout : ℚ) (s : State)

/-- The clock goes on, and an object changes. -/
def touch (now : ℚ) (n : ℕ) (f : DeviceStatus → DeviceStatus) : State :=
  { s with
    now := now
    status := Function.update s.status n (f (s.status n)) }

/-- `__pollUsbipPort`, where `usbip_port` returns. -/
def polled (result : PortResult) : Option State :=
  match s.poll, result with
  | .sleeping, .failed => some { s with poll := .ended }
  | .sleeping, .unread => some { s with poll := .checking none ⟨[], false⟩ none }
  | .sleeping, .info info => some { s with poll := .checking (some info) ⟨[], false⟩ none }
  | _, _ => none

/-- A loop fetches its next device; behind the first comes the second, and behind
the second the sleep. -/
def nextDevice (o : Option Entry) : Option State :=
  match s.poll with
  | .checking info it none =>
    if it.Yields s.devices o then
      match o with
      | some e => some { s with poll := .checking info it (some e) }
      | none => some { s with poll := .reporting ⟨[], false⟩ none }
    else none
  | .reporting it none =>
    if it.Yields s.devices o then
      match o with
      | some e => some { s with poll := .reporting it (some (e, .hadTimeout)) }
      | none => some { s with poll := .sleeping }
    else none
  | _ => none

/-- A loop may raise where the dictionary has changed. -/
def raise : Option State :=
  match s.poll with
  | .checking _ it none | .reporting it none =>
    if it.changed then some { s with poll := .ended } else none
  | _ => none

/-- The body of the first loop; `self.ip in None` raises. -/
def checkTimeout (now₁ now₂ : ℚ) : Option State :=
  match s.poll with
  | .checking none _ (some _) => some { s with poll := .ended }
  | .checking (some info) it (some e) =>
    if s.now ≤ now₁ ∧ now₁ ≤ now₂ then
      some { s.touch now₂ e.2 (·.checkTimeout timeout info now₁ now₂) with
        poll := .checking (some info) ⟨e.2 :: it.done, it.changed⟩ none }
    else none
  | _ => none

/-- `dev.hadTimeout()` -/
def hadTimeout (now : ℚ) : Option State :=
  match s.poll with
  | .reporting it (some (e, .hadTimeout)) =>
    if s.now ≤ now then
      if (s.status e.2).timedOut then
        some { s.touch now e.2 (·.pushed now) with
          poll := .reporting it (some (e, .deviceEvent)) }
      else some { s with poll := .reporting ⟨e.2 :: it.done, it.changed⟩ none }
    else none
  | _ => none

/-- `dev.deviceEvent()` -/
def deviceEvent (now : ℚ) : Option State :=
  match s.poll with
  | .reporting it (some (e, .deviceEvent)) =>
    if s.now ≤ now then
      some { s.touch now e.2 (·.deviceEvent now) with
        poll := .reporting it (some (e, .unbind)) }
    else none
  | _ => none

/-- `self.api.unbind(serial)` -/
def unbind (now : ℚ) (returns : Bool) : Option State :=
  match s.poll with
  | .reporting it (some (e, .unbind)) =>
    if s.now ≤ now then
      some { s with
        now := now
        requests := s.requests ++ [⟨e.1, now, (s.status e.2).checkedAt⟩]
        poll := if returns then .reporting ⟨e.2 :: it.done, it.changed⟩ none else .ended }
    else none
  | _ => none

/-- `__handleDevEvent`, of a file of the serial that is added. -/
def add (serial : String) (now : ℚ) : Option State :=
  if s.storing.isNone ∧ s.now ≤ now then
    match s.devices.find? serial with
    | none => some s
    | some e => some (s.touch now e.2 (·.deviceEvent now))
  else none

/-- `export`, up to where a new object is stored. -/
def exported (serial : String) (bus ip : List Char) (now : ℚ) : Option State :=
  if s.storing.isNone ∧ s.now ≤ now then
    match s.devices.find? serial with
    | none =>
      some { s with
        now := now
        storing := some (serial, .new ip bus now) }
    | some e => some (s.touch now e.2 (·.updateBus bus now))
  else none

/-- The end of `export`, where the object is new. -/
def store : Option State :=
  s.storing.map fun p =>
    { s with
      devices := s.devices.put (p.1, s.next)
      status := Function.update s.status s.next p.2
      next := s.next + 1
      storing := none
      poll := s.poll.change }

/-- `__removeDevice` -/
def remove (serial : String) : Option State :=
  if s.storing.isNone then
    match s.devices.find? serial with
    | none => some s
    | some _ =>
      some { s with
        devices := s.devices.delete fun e => decide (e.1 = serial)
        poll := s.poll.change }
  else none

def step : Input → Option State
  | .stop =>
    match s.poll with
    | .sleeping => some { s with poll := .ended }
    | _ => none
  | .polled result => s.polled result
  | .next o => s.nextDevice o
  | .raises => s.raise
  | .checkTimeout now₁ now₂ => s.checkTimeout timeout now₁ now₂
  | .hadTimeout now => s.hadTimeout now
  | .deviceEvent now => s.deviceEvent now
  | .unbind now returns => s.unbind now returns
  | .add serial now => s.add serial now
  | .export serial bus ip now => s.exported serial bus ip now
  | .store => s.store
  | .remove serial => s.remove serial

end State

/-- **The handler**, with its threads in any order. -/
def machine (timeout : ℚ) : Machine State Input where
  step := State.step timeout

/-! ### The requests of a run -/

variable {timeout : ℚ} {s t : State}

/-- **Two requests for a serial are more than the timeout apart**, from the first to
the check behind the second. -/
def State.Spaced (timeout : ℚ) (s : State) : Prop :=
  s.requests.Pairwise fun r r' => r.serial = r'.serial → timeout < r'.checkedAt - r.time

instance (timeout : ℚ) (s : State) : Decidable (s.Spaced timeout) := by
  unfold State.Spaced
  infer_instance

/-- **A step in time.** A request is not later than the `last_event` of what
the dictionary has for the serial, or will have once it is stored; and where the
first loop ends, it leaves out no device whose flag is still set. -/
def Timely (s : State) : Input → Prop
  | .unbind now _ =>
    match s.poll with
    | .reporting _ (some (e, _)) =>
      (∀ e' ∈ s.devices.rows, e'.1 = e.1 → now ≤ (s.status e'.2).lastEvent) ∧
        ∀ p ∈ s.storing, p.1 = e.1 → now ≤ p.2.lastEvent
    | _ => True
  | .next none =>
    match s.poll with
    | .checking _ it _ =>
      ∀ e ∈ s.devices.rows, e.2 ∉ it.done → (s.status e.2).timedOut = false
    | _ => True
  | _ => True

instance (s : State) (i : Input) : Decidable (Timely s i) := by
  unfold Timely
  split
  · split <;> infer_instance
  · split <;> infer_instance
  · infer_instance

/-! ### The invariant -/

/-- No request for the serial is later than the `last_event` of its object. -/
def Stamped (s : State) (serial : String) (d : DeviceStatus) : Prop :=
  ∀ r ∈ s.requests, r.serial = serial → r.time ≤ d.lastEvent

/-- The check of a device that has its flag set is later than the requests for its
serial by more than the timeout. -/
def Fresh (timeout : ℚ) (s : State) (e : Entry) : Prop :=
  (s.status e.2).timedOut = true →
    ∀ r ∈ s.requests, r.serial = e.1 → timeout < (s.status e.2).checkedAt - r.time

/-- In the first loop, the flags of the devices that it is done with are fresh; in
the second, those of the devices that it is not done with. The device it is at may
have left the dictionary, and another object may have come in its place. -/
def PollInv (timeout : ℚ) (s : State) : Poll → Prop
  | .sleeping | .ended => True
  | .checking _ it dev => (∀ e ∈ s.devices, e.2 ∈ it.done → Fresh timeout s e) ∧
      ∀ e ∈ dev, e.2 < s.next
  | .reporting it dev => (∀ e ∈ s.devices, e.2 ∉ it.done → Fresh timeout s e) ∧
      ∀ p ∈ dev, p.1.2 < s.next ∧ Fresh timeout s p.1 ∧
        (p.2 ≠ .hadTimeout → (s.status p.1.2).timedOut = true) ∧
        ∀ e ∈ s.devices, e.1 = p.1.1 → e = p.1 ∨ (s.status e.2).timedOut = false

/-- **What holds of every run in time.** -/
structure Inv (timeout : ℚ) (s : State) : Prop where
  requested : ∀ r ∈ s.requests, r.time ≤ s.now
  below : ∀ e ∈ s.devices, e.2 < s.next
  stamped : ∀ e ∈ s.devices, Stamped s e.1 (s.status e.2)
  storing : ∀ p ∈ s.storing, p.2.timedOut = false ∧ Stamped s p.1 p.2
  poll : PollInv timeout s s.poll
  spaced : s.Spaced timeout

theorem Inv.start (timeout now : ℚ) : Inv timeout (.start now) where
  requested _ hr := absurd hr List.not_mem_nil
  below e he := absurd he (Table.not_mem_empty e)
  stamped e he := absurd he (Table.not_mem_empty e)
  storing _ hp := absurd hp (Option.not_mem_none _)
  poll := trivial
  spaced := List.Pairwise.nil

/-! ### What the steps keep -/

namespace Inv

/-- The poll thread goes elsewhere. -/
theorem withPoll (h : Inv timeout s) {p : Poll} (hp : PollInv timeout s p) :
    Inv timeout { s with poll := p } :=
  ⟨h.requested, h.below, h.stamped, h.storing, hp, h.spaced⟩

section Touch

variable {now : ℚ} {n : ℕ} {f : DeviceStatus → DeviceStatus}

@[simp] theorem status_touch (m : ℕ) :
    (s.touch now n f).status m = if m = n then f (s.status m) else s.status m := by
  show Function.update s.status n (f (s.status n)) m = _
  rw [Function.update_apply]
  split
  · rename_i heq
    rw [heq]
  · rfl

/-- The event leaves the flag of an object and the check it comes from. -/
def KeepsFlag (f : DeviceStatus → DeviceStatus) : Prop :=
  ∀ d, (f d).timedOut = d.timedOut ∧ (f d).checkedAt = d.checkedAt

theorem KeepsFlag.touch (hf : KeepsFlag f) (m : ℕ) :
    ((s.touch now n f).status m).timedOut = (s.status m).timedOut ∧
      ((s.touch now n f).status m).checkedAt = (s.status m).checkedAt := by
  rw [status_touch]
  split
  · exact hf _
  · exact ⟨rfl, rfl⟩

theorem pollInv_touch (hf : KeepsFlag f) (p : Poll) :
    PollInv timeout (s.touch now n f) p ↔ PollInv timeout s p := by
  have hfresh : ∀ e, Fresh timeout (s.touch now n f) e ↔ Fresh timeout s e := by
    intro e
    rw [Fresh, Fresh, (hf.touch e.2).1, (hf.touch e.2).2]
    rfl
  cases p with
  | sleeping => rfl
  | ended => rfl
  | checking info it dev =>
    simp only [PollInv, hfresh]
    rfl
  | reporting it dev =>
    simp only [PollInv, hfresh, hf.touch]
    rfl

/-- **An event of an object**: its `last_event` does not go back, or goes to the
clock or beyond. -/
theorem touch (h : Inv timeout s) (hnow : s.now ≤ now) (hf : KeepsFlag f)
    (hlast : ∀ d : DeviceStatus, d.lastEvent ≤ (f d).lastEvent ∨ s.now ≤ (f d).lastEvent) :
    Inv timeout (s.touch now n f) where
  requested r hr := le_trans (h.requested r hr) hnow
  below := h.below
  stamped e he := by
    intro r hr hserial
    rw [status_touch]
    split
    · rcases hlast (s.status e.2) with hlast | hlast
      · exact le_trans (h.stamped e he r hr hserial) hlast
      · exact le_trans (h.requested r hr) hlast
    · exact h.stamped e he r hr hserial
  storing := h.storing
  poll := (pollInv_touch hf s.poll).mpr h.poll
  spaced := h.spaced

theorem keepsFlag_deviceEvent (now : ℚ) : KeepsFlag (·.deviceEvent now) := fun _ => ⟨rfl, rfl⟩

theorem keepsFlag_updateBus (bus : List Char) (now : ℚ) : KeepsFlag (·.updateBus bus now) :=
  fun _ => ⟨rfl, rfl⟩

theorem keepsFlag_pushed (now : ℚ) : KeepsFlag (·.pushed now) := fun _ => ⟨rfl, rfl⟩

theorem touch_deviceEvent (h : Inv timeout s) (hnow : s.now ≤ now) (n : ℕ) :
    Inv timeout (s.touch now n (·.deviceEvent now)) :=
  h.touch hnow (keepsFlag_deviceEvent now) fun d => Or.inl (le_max_right now d.lastEvent)

theorem touch_pushed (h : Inv timeout s) (hnow : s.now ≤ now) (n : ℕ) :
    Inv timeout (s.touch now n (·.pushed now)) :=
  h.touch hnow (keepsFlag_pushed now) fun _ =>
    Or.inr (le_trans hnow (le_add_of_nonneg_right (by decide)))

end Touch

end Inv

/-- What a loop goes on with is in the dictionary, and new to it. -/
theorem mem_of_yields {it : Iteration} {devices : Table Entry Prod.fst} {e : Entry}
    (h : it.Yields devices (some e)) : e ∈ devices ∧ e.2 ∉ it.done := by
  rw [Iteration.Yields] at h
  split at h
  · exact h e rfl
  · have hfind := h.symm
    exact ⟨List.mem_of_find?_eq_some hfind, by simpa using List.find?_some hfind⟩

namespace Inv

/-! ### The steps of the poll thread -/

theorem polled (h : Inv timeout s) {result : PortResult} (ht : s.polled result = some t) :
    Inv timeout t := by
  have hloop : ∀ info, PollInv timeout s (.checking info ⟨[], false⟩ none) := fun info =>
    ⟨fun e _ hdone => absurd hdone List.not_mem_nil, fun e he => absurd he (Option.not_mem_none e)⟩
  unfold State.polled at ht
  split at ht
  · obtain rfl := Option.some.inj ht
    exact h.withPoll trivial
  · obtain rfl := Option.some.inj ht
    exact h.withPoll (hloop none)
  · rename_i info _
    obtain rfl := Option.some.inj ht
    exact h.withPoll (hloop (some info))
  · cases ht

theorem nextDevice (h : Inv timeout s) {o : Option Entry} (hc : Timely s (.next o))
    (ht : s.nextDevice o = some t) : Inv timeout t := by
  have hpoll := h.poll
  rw [State.nextDevice] at ht
  split at ht
  · rename_i info it heq
    rw [heq] at hpoll
    obtain ⟨hyields, ht⟩ := Option.ite_none_right_eq_some.mp ht
    cases o with
    | some e =>
      obtain rfl := Option.some.inj ht
      refine h.withPoll ⟨hpoll.1, fun e' he' => ?_⟩
      obtain rfl := Option.mem_some.mp he'
      exact h.below e (mem_of_yields hyields).1
    | none =>
      obtain rfl := Option.some.inj ht
      refine h.withPoll ⟨fun e he _ => ?_, fun p hp => absurd hp (Option.not_mem_none p)⟩
      -- what the loop has left out has no flag
      rw [Timely, heq] at hc
      by_cases hdone : e.2 ∈ it.done
      · exact hpoll.1 e he hdone
      · intro hflag
        rw [hc e he hdone] at hflag
        cases hflag
  · rename_i it heq
    rw [heq] at hpoll
    obtain ⟨hyields, ht⟩ := Option.ite_none_right_eq_some.mp ht
    cases o with
    | some e =>
      obtain rfl := Option.some.inj ht
      obtain ⟨he, hdone⟩ := mem_of_yields hyields
      refine h.withPoll ⟨hpoll.1, fun p hp => ?_⟩
      obtain rfl := Option.mem_some.mp hp
      refine ⟨h.below e he, hpoll.1 e he hdone, fun hne => absurd rfl hne, fun e' he' hserial => ?_⟩
      exact Or.inl (Table.eq_of_key_eq he' he hserial)
    | none =>
      obtain rfl := Option.some.inj ht
      exact h.withPoll trivial
  · cases ht

theorem raise (h : Inv timeout s) (ht : s.raise = some t) : Inv timeout t := by
  rw [State.raise] at ht
  split at ht
  · obtain ⟨-, ht⟩ := Option.ite_none_right_eq_some.mp ht
    obtain rfl := Option.some.inj ht
    exact h.withPoll trivial
  · obtain ⟨-, ht⟩ := Option.ite_none_right_eq_some.mp ht
    obtain rfl := Option.some.inj ht
    exact h.withPoll trivial
  · cases ht

/-- A check sets `last_event` to the clock, or leaves it. -/
theorem stamped_checkTimeout (h : Inv timeout s) (info : PortInfo) {now₁ : ℚ} (now₂ : ℚ)
    (hnow : s.now ≤ now₁) {e : Entry} (he : e ∈ s.devices) :
    Stamped s e.1 ((s.status e.2).checkTimeout timeout info now₁ now₂) := by
  intro r hr hserial
  rw [DeviceStatus.checkTimeout]
  dsimp only
  split
  · exact le_trans (h.requested r hr) hnow
  · exact h.stamped e he r hr hserial

/-- **A check that finds a timeout is fresh.** -/
theorem checkTimeout (h : Inv timeout s) {now₁ now₂ : ℚ}
    (ht : s.checkTimeout timeout now₁ now₂ = some t) : Inv timeout t := by
  have hpoll := h.poll
  rw [State.checkTimeout] at ht
  split at ht
  · obtain rfl := Option.some.inj ht
    exact h.withPoll trivial
  · rename_i info it e heq
    rw [heq] at hpoll
    obtain ⟨⟨hnow₁, hnow₂⟩, ht⟩ := Option.ite_none_right_eq_some.mp ht
    obtain rfl := Option.some.inj ht
    refine ⟨fun r hr => le_trans (h.requested r hr) (le_trans hnow₁ hnow₂), h.below,
      fun e' he' => ?_, h.storing, ⟨fun e' he' hdone => ?_, fun e' he' =>
        absurd he' (Option.not_mem_none e')⟩, h.spaced⟩
    · intro r hr hserial
      rw [status_touch]
      split
      · exact h.stamped_checkTimeout info now₂ hnow₁ he' r hr hserial
      · exact h.stamped e' he' r hr hserial
    · rw [Fresh, status_touch]
      split
      · intro hflag r hr hserial
        have hlate := of_decide_eq_true hflag
        have hbefore := h.stamped_checkTimeout info now₂ hnow₁ he' r hr hserial
        have hlast : r.time < now₂ - timeout := lt_of_le_of_lt hbefore hlate
        show timeout < now₂ - r.time
        linarith
      · rename_i hne
        exact hpoll.1 e' he' ((List.mem_cons.mp hdone).resolve_left hne)
  · cases ht

theorem hadTimeout (h : Inv timeout s) {now : ℚ} (ht : s.hadTimeout now = some t) :
    Inv timeout t := by
  have hpoll := h.poll
  rw [State.hadTimeout] at ht
  split at ht
  · rename_i it e heq
    rw [heq] at hpoll
    obtain ⟨hnow, ht⟩ := Option.ite_none_right_eq_some.mp ht
    obtain ⟨hlt, hfresh, -, hother⟩ := hpoll.2 _ rfl
    split at ht
    · rename_i hflag
      obtain rfl := Option.some.inj ht
      have hnext : PollInv timeout s (.reporting it (some (e, .deviceEvent))) := by
        refine ⟨hpoll.1, fun p hp => ?_⟩
        obtain rfl := Option.mem_some.mp hp
        exact ⟨hlt, hfresh, fun _ => hflag, hother⟩
      exact (h.touch_pushed hnow e.2).withPoll ((pollInv_touch (keepsFlag_pushed now) _).mpr hnext)
    · obtain rfl := Option.some.inj ht
      refine h.withPoll ⟨fun e' he' hdone => ?_, fun p hp => absurd hp (Option.not_mem_none p)⟩
      exact hpoll.1 e' he' (List.not_mem_of_not_mem_cons hdone)
  · cases ht

theorem deviceEvent (h : Inv timeout s) {now : ℚ} (ht : s.deviceEvent now = some t) :
    Inv timeout t := by
  have hpoll := h.poll
  rw [State.deviceEvent] at ht
  split at ht
  · rename_i it e heq
    rw [heq] at hpoll
    obtain ⟨hnow, ht⟩ := Option.ite_none_right_eq_some.mp ht
    obtain rfl := Option.some.inj ht
    obtain ⟨hlt, hfresh, hflag, hother⟩ := hpoll.2 _ rfl
    have hnext : PollInv timeout s (.reporting it (some (e, .unbind))) := by
      refine ⟨hpoll.1, fun p hp => ?_⟩
      obtain rfl := Option.mem_some.mp hp
      exact ⟨hlt, hfresh, fun _ => hflag Stage.noConfusion, hother⟩
    exact (h.touch_deviceEvent hnow e.2).withPoll
      ((pollInv_touch (keepsFlag_deviceEvent now) _).mpr hnext)
  · cases ht

/-- **A request in time**: it is not later than what the dictionary has for the
serial, and the check behind it is later than the requests before it. -/
theorem unbind (h : Inv timeout s) {now : ℚ} {returns : Bool} (hc : Timely s (.unbind now returns))
    (ht : s.unbind now returns = some t) : Inv timeout t := by
  have hpoll := h.poll
  rw [State.unbind] at ht
  split at ht
  · rename_i it e heq
    rw [heq] at hpoll
    rw [Timely, heq] at hc
    obtain ⟨hnow, ht⟩ := Option.ite_none_right_eq_some.mp ht
    obtain rfl := Option.some.inj ht
    obtain ⟨-, hfresh, hflag, hother⟩ := hpoll.2 _ rfl
    have hset := hflag Stage.noConfusion
    -- an old request or the new one
    have hmem : ∀ {P : Request → Prop}, (∀ r ∈ s.requests, P r) →
        P ⟨e.1, now, (s.status e.2).checkedAt⟩ →
          ∀ r ∈ s.requests ++ [⟨e.1, now, (s.status e.2).checkedAt⟩], P r := by
      intro P hold hnew r hr
      rcases List.mem_append.mp hr with hr | hr
      · exact hold r hr
      · rw [List.mem_singleton.mp hr]
        exact hnew
    refine ⟨hmem (fun r hr => le_trans (h.requested r hr) hnow) le_rfl, h.below,
      fun e' he' => hmem (h.stamped e' he') fun hserial => hc.1 e' he' hserial.symm,
      fun p hp => ⟨(h.storing p hp).1, hmem (h.storing p hp).2 fun hserial =>
        hc.2 p hp hserial.symm⟩, ?_, ?_⟩
    · cases returns with
      | false => exact trivial
      | true =>
        refine ⟨fun e' he' hdone hset' => ?_, fun p hp => absurd hp (Option.not_mem_none p)⟩
        have hold := hpoll.1 e' he' (List.not_mem_of_not_mem_cons hdone)
        refine hmem (hold hset') fun hserial => ?_
        rcases hother e' he' hserial.symm with rfl | hclear
        · exact absurd List.mem_cons_self hdone
        · exact absurd (hclear.symm.trans hset') Bool.false_ne_true
    · refine List.pairwise_append.mpr ⟨h.spaced, List.pairwise_singleton _ _, fun r hr r' hr' => ?_⟩
      rw [List.mem_singleton.mp hr']
      exact hfresh hset r hr
  · cases ht

/-! ### The steps of the other threads -/

theorem add (h : Inv timeout s) {serial : String} {now : ℚ} (ht : s.add serial now = some t) :
    Inv timeout t := by
  obtain ⟨⟨-, hnow⟩, ht⟩ := Option.ite_none_right_eq_some.mp ht
  split at ht
  · obtain rfl := Option.some.inj ht
    exact h
  · rename_i e _
    obtain rfl := Option.some.inj ht
    exact h.touch_deviceEvent hnow e.2

theorem exported (h : Inv timeout s) {serial : String} {bus ip : List Char} {now : ℚ}
    (ht : s.exported serial bus ip now = some t) : Inv timeout t := by
  obtain ⟨⟨-, hnow⟩, ht⟩ := Option.ite_none_right_eq_some.mp ht
  split at ht
  · obtain rfl := Option.some.inj ht
    refine ⟨fun r hr => le_trans (h.requested r hr) hnow, h.below, h.stamped, fun p hp => ?_,
      h.poll, h.spaced⟩
    obtain rfl := Option.mem_some.mp hp
    exact ⟨rfl, fun r hr _ => le_trans (h.requested r hr) hnow⟩
  · rename_i e _
    obtain rfl := Option.some.inj ht
    exact h.touch hnow (keepsFlag_updateBus bus now) fun d => Or.inl (le_max_right now d.lastEvent)

/-- Keys that are new or gone do not matter to the loops, where the new object has
no flag. -/
theorem pollInv_change {p : Poll} (h : PollInv timeout s p) (hnext : s.next ≤ t.next)
    (hrequests : t.requests = s.requests)
    (hstatus : ∀ n, n < s.next → t.status n = s.status n)
    (hdevices : ∀ e ∈ t.devices, (e ∈ s.devices ∧ e.2 < s.next) ∨ (t.status e.2).timedOut = false) :
    PollInv timeout t p.change := by
  have hfresh : ∀ e : Entry, e.2 < s.next → Fresh timeout s e → Fresh timeout t e := by
    intro e hlt he
    rw [Fresh, hstatus e.2 hlt, hrequests]
    exact he
  have hdone : ∀ e ∈ t.devices, (e ∈ s.devices → Fresh timeout s e) → Fresh timeout t e := by
    intro e he hold
    rcases hdevices e he with ⟨hmem, hlt⟩ | hclear
    · exact hfresh e hlt (hold hmem)
    · intro hflag
      rw [hclear] at hflag
      cases hflag
  cases p with
  | sleeping => exact trivial
  | ended => exact trivial
  | checking info it dev =>
    exact ⟨fun e he hmem => hdone e he fun hold => h.1 e hold hmem,
      fun e he => lt_of_lt_of_le (h.2 e he) hnext⟩
  | reporting it dev =>
    refine ⟨fun e he hmem => hdone e he fun hold => h.1 e hold hmem, fun q hq => ?_⟩
    obtain ⟨hlt, hq, hflag, hother⟩ := h.2 q hq
    refine ⟨lt_of_lt_of_le hlt hnext, hfresh q.1 hlt hq, ?_, fun e he hserial => ?_⟩
    · rwa [hstatus q.1.2 hlt]
    · rcases hdevices e he with ⟨hmem, hlt'⟩ | hclear
      · rw [hstatus e.2 hlt']
        exact hother e hmem hserial
      · exact Or.inr hclear

/-- An object is stored under a new number. -/
theorem store (h : Inv timeout s) (ht : s.store = some t) : Inv timeout t := by
  obtain ⟨⟨serial, d⟩, hstoring, rfl⟩ := Option.map_eq_some_iff.mp ht
  obtain ⟨hclear, hstamped⟩ := h.storing _ hstoring
  have hold : ∀ n, n < s.next → Function.update s.status s.next d n = s.status n :=
    fun n hn => Function.update_of_ne (Nat.ne_of_lt hn) d s.status
  have hnew : Function.update s.status s.next d s.next = d := Function.update_self s.next d s.status
  refine ⟨h.requested, fun e he => ?_, fun e he => ?_,
    fun p hp => absurd hp (Option.not_mem_none p),
    pollInv_change h.poll (Nat.le_succ s.next) rfl hold fun e he => ?_, h.spaced⟩
  · rcases Table.mem_put.mp he with rfl | ⟨he, -⟩
    · exact Nat.lt_succ_self s.next
    · exact Nat.lt_succ_of_lt (h.below e he)
  · show Stamped s e.1 (Function.update s.status s.next d e.2)
    rcases Table.mem_put.mp he with rfl | ⟨he, -⟩
    · rw [hnew]
      exact hstamped
    · rw [hold e.2 (h.below e he)]
      exact h.stamped e he
  · rcases Table.mem_put.mp he with rfl | ⟨he, -⟩
    · exact Or.inr ((congrArg DeviceStatus.timedOut hnew).trans hclear)
    · exact Or.inl ⟨he, h.below e he⟩

theorem remove (h : Inv timeout s) {serial : String} (ht : s.remove serial = some t) :
    Inv timeout t := by
  obtain ⟨-, ht⟩ := Option.ite_none_right_eq_some.mp ht
  split at ht
  · obtain rfl := Option.some.inj ht
    exact h
  · obtain rfl := Option.some.inj ht
    have hmem : ∀ e ∈ s.devices.delete fun e => decide (e.1 = serial), e ∈ s.devices :=
      fun e he => (Table.mem_delete.mp he).1
    exact ⟨h.requested, fun e he => h.below e (hmem e he), fun e he => h.stamped e (hmem e he),
      h.storing, pollInv_change h.poll le_rfl rfl (fun _ _ => rfl) fun e he =>
        Or.inl ⟨hmem e he, h.below e (hmem e he)⟩, h.spaced⟩

/-- **A step in time keeps the invariant.** -/
theorem step (h : Inv timeout s) {i : Input} (hc : Timely s i)
    (ht : (machine timeout).step s i = some t) : Inv timeout t := by
  cases i with
  | stop =>
    have hstop : s.step timeout .stop = some t := ht
    rw [State.step] at hstop
    split at hstop
    · obtain rfl := Option.some.inj hstop
      exact h.withPoll trivial
    · cases hstop
  | polled result => exact h.polled ht
  | next o => exact h.nextDevice hc ht
  | raises => exact h.raise ht
  | checkTimeout now₁ now₂ => exact h.checkTimeout ht
  | hadTimeout now => exact h.hadTimeout ht
  | deviceEvent now => exact h.deviceEvent ht
  | unbind now returns => exact h.unbind hc ht
  | add serial now => exact h.add ht
  | «export» serial bus ip now => exact h.exported ht
  | store => exact h.store ht
  | remove serial => exact h.remove ht

end Inv

/-! ### Runs -/

/-- Where the object of the device was not replaced, a request is in time if it goes
out within the delay. -/
theorem timely_unbind {it : Iteration} {e : Entry}
    (hpoll : s.poll = .reporting it (some (e, .unbind)))
    (he : e ∈ s.devices) (hstoring : s.storing = none) {now : ℚ} {returns : Bool} :
    Timely s (.unbind now returns) ↔ now ≤ (s.status e.2).lastEvent := by
  rw [Timely, hpoll]
  constructor
  · exact fun h => h.1 e he rfl
  · refine fun h => ⟨fun e' he' hserial => ?_, fun p hp => ?_⟩
    · rwa [Table.eq_of_key_eq he' he hserial]
    · rw [hstoring] at hp
      exact absurd hp (Option.not_mem_none p)

/-- Where no keys were added or deleted, the first loop leaves out nothing. -/
theorem timely_next {info : Option PortInfo} {it : Iteration}
    (hpoll : s.poll = .checking info it none) (hchanged : it.changed = false)
    (hyields : it.Yields s.devices none) : Timely s (.next none) := by
  rw [Iteration.Yields, hchanged] at hyields
  rw [Timely, hpoll]
  intro e he hdone
  have hall := List.find?_eq_none.mp hyields.symm e he
  exact absurd (decide_eq_true hdone) hall

/-- **In every run whose steps are in time, two requests for a serial are more than
the timeout apart.** -/
theorem spaced_of_meets (timeout now : ℚ) (inputs : List Input)
    (h : (machine timeout).Meets Timely (.start now) inputs) :
    (machine timeout).Along (State.Spaced timeout) (.start now) inputs :=
  Machine.along_of_meets (fun _ _ _ hI hc hi => Inv.step hI hc hi) (fun _ hI => hI.spaced)
    (Inv.start timeout now) h

/-- A device is attached, and twice found to be gone; each request goes out at
once. -/
def resets : List Input :=
  [.export "A" "1-2".toList "10.0.0.4".toList 0, .store, .polled (.info ∅), .next (some ("A", 0)),
    .checkTimeout 16 16, .next none, .next (some ("A", 0)), .hadTimeout 16, .deviceEvent 16,
    .unbind 16 true, .next none, .polled (.info ∅), .next (some ("A", 0)), .checkTimeout 47 47,
    .next none, .next (some ("A", 0)), .hadTimeout 47, .deviceEvent 47, .unbind 47 true]

theorem spaced_of_meets_resets :
    ((machine 15).run (.start 0) resets).map (fun s => s.requests.length) = some 2 ∧
      (machine 15).Along (State.Spaced 15) (.start 0) resets :=
  ⟨by decide +kernel, spaced_of_meets 15 0 resets (by decide +kernel)⟩

/-- A run ends with two requests that are too close. -/
theorem not_along_of_any {inputs : List Input}
    (h : ((machine timeout).run s inputs).any (fun t => !decide (t.Spaced timeout)) = true) :
    ¬(machine timeout).Along (State.Spaced timeout) s inputs := by
  intro halong
  obtain ⟨t, ht, hspaced⟩ := (Option.any_eq_true _ _).mp h
  rw [decide_eq_true (halong.last ht)] at hspaced
  cases hspaced

/-- The first request goes out at 100, when it has been waiting for the socket of the
worker. -/
def delayed : List Input :=
  [.export "A" "1-2".toList "10.0.0.4".toList 0, .store, .polled (.info ∅), .next (some ("A", 0)),
    .checkTimeout 16 16, .next none, .next (some ("A", 0)), .hadTimeout 16, .deviceEvent 16,
    .unbind 100 true, .next none, .polled (.info ∅), .next (some ("A", 0)), .checkTimeout 104 104,
    .next none, .next (some ("A", 0)), .hadTimeout 104, .deviceEvent 104, .unbind 104 true]

/-- A device is exported, and its reservation ends. -/
def passes (serial : String) : List Input :=
  [.export serial "1-2".toList "10.0.0.4".toList 0, .store, .remove serial]

/-- The device is reserved and exported anew while the poll thread is at its old
object. The four devices before it have left no room in the dictionary, which is laid
out anew when the device comes back; so the loop finds nothing behind the old
object. -/
def replaced : List Input :=
  passes "B" ++ passes "C" ++ passes "D" ++ passes "E" ++
  [.export "A" "1-2".toList "10.0.0.4".toList 0, .store, .polled (.info ∅), .next (some ("A", 4)),
    .checkTimeout 16 16, .next none, .next (some ("A", 4)), .hadTimeout 16, .remove "A",
    .export "A" "1-2".toList "10.0.0.4".toList 16, .store, .deviceEvent 20, .unbind 20 true,
    .next none, .polled (.info ∅), .next (some ("A", 5)), .checkTimeout 32 32, .next none,
    .next (some ("A", 5)), .hadTimeout 32, .deviceEvent 32, .unbind 32 true]

/-- **A device is unbound again too early**: four seconds after a request that was
delayed, and twelve after one for an object that was replaced. -/
theorem unbound_again :
    ¬(machine 15).Along (State.Spaced 15) (.start 0) delayed ∧
      ¬(machine 15).Along (State.Spaced 15) (.start 0) replaced :=
  ⟨not_along_of_any (by decide +kernel), not_along_of_any (by decide +kernel)⟩

end UsbipIce.UsbipHandler
