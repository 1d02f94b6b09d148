import UsbipIce.Control.Reserve
import UsbipIce.Worker.Supply

/-!
# Control, its messages and the workers' devices

The parts put together: the control database, the `/reserve` and `/unreserve`
requests on their way from `Control` to the workers, and the devices the workers
hold. One step of `UsbipIce.Fleet.machine` is one operation of `Control` with
the transaction it makes, one request that arrives or is lost, one device that
appears, or one step inside a device.

Requests arrive in any order. `Control.reserve` sends each of its requests from
a thread of its own, and which requests these are depends on the schedule of
those threads (`UsbipIce.Control.requests`). A request goes to an address, and
it reaches a device only where the device's worker listens there.
-/

namespace UsbipIce

open Lib Worker Database

/-! ### Messages -/

/-- A request of `Control` to a worker. -/
inductive Message (α : Type*) where
  | reserve (request : Control.ReserveRequest α)
  | unreserve (row : EndedRow)

namespace Message

variable {α : Type*}

/-- The device the request is about. -/
def serial : Message α → String
  | .reserve request => request.serial
  | .unreserve row => row.serial

/-- The address it is sent to. -/
def address : Message α → String × ℤ
  | .reserve request => (request.ip, request.port)
  | .unreserve row => (row.workerip, row.workerport)

/-- It is an `/unreserve` of the device. -/
def unreserves (a : String) : Message α → Bool
  | .reserve _ => false
  | .unreserve row => decide (row.serial = a)

/-- What a device does with it. -/
def handle (d : Device StateFactory) : Message α → Device StateFactory
  | .reserve request => states.handleReserve d request.kind
  | .unreserve _ => states.handleUnreserve d

end Message

/-! ### The fleet -/

/-- The database, the messages in flight, the oldest first, and the devices. -/
structure Fleet (α : Type*) where
  db : Database
  messages : List (Message α)
  devices : String → Option (Device StateFactory)

/-- What happens to the fleet. -/
inductive FleetInput (α : Type*) where
  /-- A worker sees a device for the first time. -/
  | addDevice (serial worker : String)
  /-- `Control.reserve`: the `LIMIT` picks `res`, and the loop over the rows and
  its threads go on as `schedule` says. -/
  | reserve (clientId : String) (amount : ℤ) (kind : String) (args : α) (now : ℤ)
      (res : List ReservedRow) (schedule : List LoopInput)
  /-- `Control.end`. -/
  | endSome (clientId : String) (serials : List String)
  /-- `Control.endAll`. -/
  | endAll (clientId : String)
  /-- Message `k` arrives. -/
  | deliver (k : ℕ)
  /-- Message `k` never arrives. -/
  | lose (k : ℕ)
  /-- Something goes on inside a device. -/
  | device (serial : String) (i : DeviceStep Outside)

namespace Fleet

variable {α : Type*}

/-- `Control.reserve`. -/
def reserve (s : Fleet α) (clientId : String) (amount : ℤ) (kind : String) (args : α) (now : ℤ)
    (res : List ReservedRow) (schedule : List LoopInput) : Option (Fleet α) :=
  (s.db.makeReservations amount clientId now res).bind fun x =>
    (Control.reserveLoop.run (.start x.2) schedule).bind fun t =>
      if t.Done 3 then some
        { s with
          db := x.1
          messages := s.messages ++ (Control.requests kind args t).map .reserve }
      else none

/-- `Control.end` and `Control.endAll`, once the transaction has returned. -/
def notifyEnd (s : Fleet α) (x : Database × List EndedRow) : Fleet α :=
  { s with db := x.1, messages := s.messages ++ x.2.map .unreserve }

/-- A message arrives at the worker that listens at its address. -/
def receive (s : Fleet α) (m : Message α) : Fleet α :=
  match s.db.workerOf m.serial, s.devices m.serial with
  | some w, some d =>
    if m.address = (w.host, w.serverPort) then
      { s with devices := Function.update s.devices m.serial (some (m.handle d)) }
    else s
  | _, _ => s

/-- What a step of a device does to the database. -/
def report (db : Database) (serial : String) : Option Effect → Database
  | some (.status st) => (db.updateDeviceStatus serial st).getD db
  | some (.exit _) | some (.start _) | some (.dispatch ..) | none => db

/-- One step of the fleet. -/
def step (s : Fleet α) : FleetInput α → Option (Fleet α)
  | .addDevice serial worker =>
    match s.devices serial with
    | some _ => none
    | none => (s.db.addDevice serial worker).map fun db =>
      { s with db := db, devices := Function.update s.devices serial (some states.init) }
  | .reserve clientId amount kind args now res schedule =>
    s.reserve clientId amount kind args now res schedule
  | .endSome clientId serials => some (s.notifyEnd (s.db.endReservations clientId serials))
  | .endAll clientId => some (s.notifyEnd (s.db.endAllReservations clientId))
  | .deliver k => (s.messages[k]?).map fun m =>
    { s with messages := s.messages.eraseIdx k }.receive m
  | .lose k => (s.messages[k]?).map fun _ => { s with messages := s.messages.eraseIdx k }
  | .device serial i => (s.devices serial).bind fun d => (states.step d i).map fun x =>
    { s with
      db := report s.db serial x.2
      devices := Function.update s.devices serial (some x.1) }

/-- The fleet as a machine. -/
def machine (α : Type*) : Machine (Fleet α) (FleetInput α) := ⟨step⟩

/-- Where one device has changed, a device is that one or an old one. -/
theorem eq_or_of_update {devices : String → Option (Device StateFactory)} {a b : String}
    {d d' : Device StateFactory} (h : Function.update devices a (some d') b = some d) :
    b = a ∧ d = d' ∨ b ≠ a ∧ devices b = some d := by
  by_cases hb : b = a
  · subst hb
    rw [Function.update_self] at h
    exact Or.inl ⟨rfl, (Option.some.inj h).symm⟩
  · exact Or.inr ⟨hb, (Function.update_of_ne hb _ _).symm.trans h⟩

/-- Some workers, no device yet. -/
def start (workers : Table WorkerRow WorkerRow.workerName) : Fleet α where
  db :=
    { worker := workers
      device := ∅
      reservations := ∅
      deviceWorker := fun d hd => absurd hd (Table.not_mem_empty d)
      reservationsDevice := fun r hr => absurd hr (Table.not_mem_empty r) }
  messages := []
  devices := fun _ => none

end Fleet

end UsbipIce
