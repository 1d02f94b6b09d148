import Mathlib.Data.Int.Notation
import UsbipIce.Lib.Table

/-!
# The control database

The three tables of the `flyway` migrations and the SQL functions over them.
Each function is one transaction: it returns the tables it leaves, or `none`
where a statement of it raises, which rolls back everything before it.

The constraints of `V1__Tables.sql` are fields of `UsbipIce.Database`: the
primary keys are those of the tables themselves (`Lib.Table`), the two foreign
keys are `UsbipIce.Database.deviceWorker` and
`UsbipIce.Database.reservationsDevice`.

Two things of the source are fixed from outside: the current time, and which
rows a `LIMIT` picks (`Lib.IsLimit`).
-/

namespace UsbipIce

open Lib

/-! ### The tables -/

/-- The enumeration `DeviceState` of `V1__Tables.sql`. -/
inductive DeviceState where
  | available
  | reserved
  | awaitFlashDefault
  | flashingDefault
  | testing
  | broken
  deriving DecidableEq, Repr

/-- A row of `Worker`. -/
structure WorkerRow where
  workerName : String
  host : String
  serverPort : ℤ
  lastHeartbeat : ℤ
  deriving DecidableEq, Repr

/-- A row of `Device`. -/
structure DeviceRow where
  serialId : String
  worker : String
  deviceStatus : DeviceState
  deriving DecidableEq, Repr

/-- A row of `Reservations`; `till` is the column `Until`. -/
structure ReservationRow where
  device : String
  clientName : String
  till : ℤ
  deriving DecidableEq, Repr

/-- **The database**: the tables with their primary and foreign keys. -/
structure Database where
  worker : Table WorkerRow WorkerRow.workerName
  device : Table DeviceRow DeviceRow.serialId
  reservations : Table ReservationRow ReservationRow.device
  /-- `Device.Worker REFERENCES Worker`. -/
  deviceWorker : ∀ d ∈ device, d.worker ∈ worker.keys
  /-- `Reservations.Device REFERENCES Device`. -/
  reservationsDevice : ∀ r ∈ reservations, r.device ∈ device.keys

namespace Database

/-- The status column of a device, if it has a row. -/
def status (db : Database) (serial : String) : Option DeviceState :=
  (db.device.find? serial).map DeviceRow.deviceStatus

/-- Whether a device has a row in `Reservations`. -/
def IsReserved (db : Database) (serial : String) : Prop := serial ∈ db.reservations.keys

instance (db : Database) (serial : String) : Decidable (db.IsReserved serial) :=
  inferInstanceAs (Decidable (_ ∈ _))

theorem isReserved_congr {db db' : Database} (h : db'.reservations = db.reservations)
    (serial : String) : db'.IsReserved serial ↔ db.IsReserved serial := by
  rw [IsReserved, IsReserved, h]

theorem status_eq_some {db : Database} {serial : String} {st : DeviceState} :
    db.status serial = some st ↔ ∃ d ∈ db.device, d.serialId = serial ∧ d.deviceStatus = st := by
  simp only [status, Option.map_eq_some_iff, Table.find?_eq_some, and_assoc]

/-! ### Writing statuses

Every function that writes a status does it by one `UPDATE Device SET
DeviceStatus = …`, differing in the rows selected. -/

/-- `UPDATE Device SET DeviceStatus = st WHERE SerialId …`. -/
def setStatus (db : Database) (p : String → Bool) (st : DeviceState) : Database where
  worker := db.worker
  device := db.device.update (fun d => p d.serialId) (fun d => { d with deviceStatus := st })
    fun _ => rfl
  reservations := db.reservations
  deviceWorker := by
    intro d hd
    obtain ⟨d', hd', rfl⟩ := Table.mem_update.mp hd
    have h := db.deviceWorker d' hd'
    split <;> exact h
  reservationsDevice := by
    intro r hr
    simpa using db.reservationsDevice r hr

@[simp] theorem setStatus_worker (db : Database) (p : String → Bool) (st : DeviceState) :
    (db.setStatus p st).worker = db.worker := rfl

@[simp] theorem setStatus_reservations (db : Database) (p : String → Bool) (st : DeviceState) :
    (db.setStatus p st).reservations = db.reservations := rfl

/-- **What an update of the statuses does to one device.** -/
@[simp] theorem status_setStatus (db : Database) (p : String → Bool) (st : DeviceState)
    (serial : String) :
    (db.setStatus p st).status serial =
      if p serial then (db.status serial).map fun _ => st else db.status serial := by
  rw [status, setStatus, Table.find?_update, Option.map_map]
  cases hfind : db.device.find? serial with
  | none => simp [status, hfind]
  | some d =>
    obtain ⟨-, rfl⟩ := Table.find?_eq_some.mp hfind
    rw [status, hfind, Option.map_some]
    by_cases hp : p d.serialId = true <;> simp [hp]

/-- The row of the worker a device is attached to. -/
def workerOf (db : Database) (serial : String) : Option WorkerRow :=
  (db.device.find? serial).bind fun d => db.worker.find? d.worker

/-- A status says nothing about the worker. -/
@[simp] theorem workerOf_setStatus (db : Database) (p : String → Bool) (st : DeviceState) :
    (db.setStatus p st).workerOf = db.workerOf := by
  funext serial
  rw [workerOf, workerOf, setStatus, Table.find?_update]
  cases db.device.find? serial with
  | none => rfl
  | some d =>
    simp only [Option.map_some, Option.bind_some]
    split <;> rfl

/-- The worker column of a device, if it has a row. -/
def owner (db : Database) (serial : String) : Option String :=
  (db.device.find? serial).map DeviceRow.worker

theorem owner_eq_some {db : Database} {serial w : String} :
    db.owner serial = some w ↔ ∃ d ∈ db.device, d.serialId = serial ∧ d.worker = w := by
  simp only [owner, Option.map_eq_some_iff, Table.find?_eq_some, and_assoc]

/-- The worker of a device has a row. -/
theorem mem_keys_of_owner {db : Database} {serial w : String} (h : db.owner serial = some w) :
    w ∈ db.worker.keys := by
  obtain ⟨d, hd, -, rfl⟩ := owner_eq_some.mp h
  exact db.deviceWorker d hd

@[simp] theorem owner_setStatus (db : Database) (p : String → Bool) (st : DeviceState) :
    (db.setStatus p st).owner = db.owner := by
  funext serial
  rw [owner, owner, setStatus, Table.find?_update, Option.map_map]
  refine congrArg (fun f => Option.map f _) (funext fun d => ?_)
  rw [Function.comp_apply]
  split <;> rfl

/-! ### `V1.1__WorkerProc.sql` -/

/-- `addWorker`: raises where the worker exists. -/
def addWorker (db : Database) (row : WorkerRow) : Option Database :=
  match h : db.worker.insert? row with
  | none => none
  | some worker => some
    { worker := worker
      device := db.device
      reservations := db.reservations
      deviceWorker := by
        intro d hd
        obtain ⟨w, hw, hk⟩ := Table.mem_keys.mp (db.deviceWorker d hd)
        refine Table.mem_keys.mpr ⟨w, ?_, hk⟩
        rw [Table.mem_def, Table.insert?_rows h]
        exact List.mem_append_left _ hw
      reservationsDevice := db.reservationsDevice }

/-- `heartbeatWorker`: raises where the worker does not exist. -/
def heartbeatWorker (db : Database) (wname : String) (now : ℤ) : Option Database :=
  if wname ∈ db.worker.keys then some
    { worker := db.worker.update (fun w => w.workerName = wname)
        (fun w => { w with lastHeartbeat := now }) fun _ => rfl
      device := db.device
      reservations := db.reservations
      deviceWorker := by
        intro d hd
        simpa using db.deviceWorker d hd
      reservationsDevice := db.reservationsDevice }
  else none

/-! ### `V1.2__DeviceProc.sql` -/

/-- `addDevice`: raises where the worker does not exist or the serial does. -/
def addDevice (db : Database) (deviceserial worker : String) : Option Database :=
  if hw : worker ∈ db.worker.keys then
    match h : db.device.insert? ⟨deviceserial, worker, .awaitFlashDefault⟩ with
    | none => none
    | some device => some
      { worker := db.worker
        device := device
        reservations := db.reservations
        deviceWorker := by
          intro d hd
          rw [Table.mem_def, Table.insert?_rows h] at hd
          rcases List.mem_append.mp hd with hd | hd
          · exact db.deviceWorker d hd
          · rw [List.mem_singleton.mp hd]
            exact hw
        reservationsDevice := by
          intro r hr
          obtain ⟨d, hd, hk⟩ := Table.mem_keys.mp (db.reservationsDevice r hr)
          refine Table.mem_keys.mpr ⟨d, ?_, hk⟩
          rw [Table.mem_def, Table.insert?_rows h]
          exact List.mem_append_left _ hd }
  else none

/-- `updateDeviceStatus`: raises where the serial does not exist. -/
def updateDeviceStatus (db : Database) (deviceserial : String) (dstate : DeviceState) :
    Option Database :=
  if deviceserial ∈ db.device.keys then
    some (db.setStatus (fun s => decide (s = deviceserial)) dstate)
  else none

/-! ### `makeReservations` -/

/-- A row of the temporary table `res` of `makeReservations`, under the names
`ControlDatabase.reserve` gives its columns. -/
structure ReservedRow where
  serial : String
  ip : String
  serverport : ℤ
  deriving DecidableEq, Repr

/-- The candidates: `Device INNER JOIN Worker … WHERE DeviceStatus =
'available'`, before the `LIMIT`. -/
def available (db : Database) : List ReservedRow :=
  (db.device.rows.filter fun d => d.deviceStatus = .available).flatMap fun d =>
    (db.worker.rows.filter fun w => w.workerName = d.worker).map fun w =>
      ⟨d.serialId, w.host, w.serverPort⟩

/-- The rows `makeReservations` inserts into `Reservations`. -/
def newReservations (res : List ReservedRow) (clientName : String) (now : ℤ) :
    List ReservationRow :=
  res.map fun r => ⟨r.serial, clientName, now + 3600⟩

theorem available_serial {db : Database} {r : ReservedRow} (h : r ∈ db.available) :
    ∃ d ∈ db.device, d.serialId = r.serial ∧ d.deviceStatus = .available := by
  obtain ⟨d, hd, hr⟩ := List.mem_flatMap.mp h
  obtain ⟨w, -, rfl⟩ := List.mem_map.mp hr
  rw [List.mem_filter] at hd
  exact ⟨d, hd.1, rfl, by simpa using hd.2⟩

/-- The statements of `makeReservations` after the candidates are staged in
`res`: mark them, insert their reservations, return them. It raises where a
reservation for one of them exists. -/
def reserve (db : Database) (clientName : String) (now : ℤ) (res : List ReservedRow)
    (hres : ∀ r ∈ res, r.serial ∈ db.device.keys) : Option Database :=
  match h : db.reservations.insertAll? (newReservations res clientName now) with
  | none => none
  | some reservations => some
    { worker := db.worker
      device := (db.setStatus (fun s => s ∈ res.map ReservedRow.serial) .reserved).device
      reservations := reservations
      deviceWorker := (db.setStatus _ _).deviceWorker
      reservationsDevice := by
        intro r hr
        rw [setStatus, Table.keys_update]
        rw [Table.mem_def, Table.insertAll?_rows h] at hr
        rcases List.mem_append.mp hr with hr | hr
        · exact db.reservationsDevice r hr
        · obtain ⟨x, hx, rfl⟩ := List.mem_map.mp hr
          exact hres x hx }

/-- `makeReservations`: `res` is the rows its `LIMIT amount` picks. The answer
is the tables and the rows returned, or `none` where it raises; a negative
`LIMIT` raises. -/
def makeReservations (db : Database) (amount : ℤ) (clientName : String) (now : ℤ)
    (res : List ReservedRow) : Option (Database × List ReservedRow) :=
  if h : 0 ≤ amount ∧ IsLimit amount.toNat db.available res then
    (db.reserve clientName now res fun r hr => by
      obtain ⟨d, hd, hk, -⟩ := available_serial (h.2.mem hr)
      exact hk ▸ Table.key_mem_keys hd).map fun db' => (db', res)
  else none

/-! ### `endReservations` and `endAllReservations`

The two functions stage the serials of a client's reservations, all of them or
the listed ones, and go on alike. -/

/-- A row returned by the functions that end reservations, under the names
`ControlDatabase.end` gives its columns. -/
structure EndedRow where
  serial : String
  workerip : String
  workerport : ℤ
  deriving DecidableEq, Repr

/-- The `RETURN QUERY` over the staged serials: `res` joined with
`Reservations`, `Device` and `Worker`. -/
def endedRows (db : Database) (res : List String) : List EndedRow :=
  res.flatMap fun s =>
    (db.reservations.rows.filter fun r => s = r.device).flatMap fun _ =>
      (db.device.rows.filter fun d => s = d.serialId).flatMap fun d =>
        (db.worker.rows.filter fun w => d.worker = w.workerName).map fun w =>
          ⟨s, w.host, w.serverPort⟩

/-- The statements after the staging: return the joined rows, delete the
reservations, mark the devices. -/
def endStaged (db : Database) (res : List String) : Database × List EndedRow :=
  ({ worker := db.worker
     device := (db.setStatus (fun s => s ∈ res) .awaitFlashDefault).device
     reservations := db.reservations.delete fun r => r.device ∈ res
     deviceWorker := (db.setStatus _ _).deviceWorker
     reservationsDevice := fun r hr =>
       (db.setStatus _ _).reservationsDevice r (Table.mem_delete.mp hr).1 },
    db.endedRows res)

/-- `endReservations`. -/
def endReservations (db : Database) (clientName : String) (serialIds : List String) :
    Database × List EndedRow :=
  db.endStaged ((db.reservations.rows.filter fun r =>
    r.clientName = clientName ∧ r.device ∈ serialIds).map ReservationRow.device)

/-- `endAllReservations`. -/
def endAllReservations (db : Database) (clientName : String) : Database × List EndedRow :=
  db.endStaged ((db.reservations.rows.filter fun r =>
    r.clientName = clientName).map ReservationRow.device)

/-! ### What the functions do to one device -/

@[simp] theorem status_eq_none {db : Database} {serial : String} :
    db.status serial = none ↔ serial ∉ db.device.keys := by
  simp [status]

theorem mem_keys_of_status {db : Database} {serial : String} {st : DeviceState}
    (h : db.status serial = some st) : serial ∈ db.device.keys := by
  by_contra hno
  rw [status_eq_none.mpr hno] at h
  cases h

/-- A device with a reservation has a row. -/
theorem IsReserved.mem_keys {db : Database} {serial : String} (h : db.IsReserved serial) :
    serial ∈ db.device.keys := by
  obtain ⟨r, hr, rfl⟩ := Table.mem_keys.mp h
  exact db.reservationsDevice r hr

/-- **`addDevice`** adds a row for a new serial and changes nothing else. -/
theorem addDevice_spec {db db' : Database} {serial worker : String}
    (h : db.addDevice serial worker = some db') :
    db.status serial = none ∧
      (∀ s, db'.status s = if s = serial then some .awaitFlashDefault else db.status s) ∧
      db'.reservations = db.reservations ∧ ∀ s, s ≠ serial → db'.workerOf s = db.workerOf s := by
  rw [addDevice] at h
  split at h
  · split at h
    · cases h
    · rename_i device hins
      obtain rfl := Option.some.inj h
      have hfind := Table.find?_insert? hins
      refine ⟨?_, fun s => ?_, rfl, fun s hs => ?_⟩
      · simpa using Table.insert?_isSome.mp (Option.isSome_iff_exists.mpr ⟨_, hins⟩)
      · rw [status, hfind]
        split <;> rfl
      · rw [workerOf, hfind, if_neg hs]
        rfl
  · cases h

/-- `addDevice` gives a device without a row to the worker. -/
theorem owner_addDevice {db db' : Database} {serial worker : String}
    (h : db.addDevice serial worker = some db') :
    db.owner serial = none ∧ ∀ s, db'.owner s = if s = serial then some worker else db.owner s := by
  constructor
  · simpa [owner] using status_eq_none.mp (addDevice_spec h).1
  · intro s
    rw [addDevice] at h
    split at h
    · split at h
      · cases h
      · rename_i device hins
        obtain rfl := Option.some.inj h
        rw [owner, Table.find?_insert? hins]
        split <;> rfl
    · cases h

/-- When `addDevice` goes through. -/
@[simp] theorem addDevice_isSome {db : Database} {serial worker : String} :
    (db.addDevice serial worker).isSome ↔
      worker ∈ db.worker.keys ∧ db.owner serial = none := by
  rw [owner, Option.map_eq_none_iff, Table.find?_eq_none, addDevice]
  split
  · rename_i hw
    have hins : (db.device.insert? ⟨serial, worker, .awaitFlashDefault⟩).isSome ↔
        serial ∉ db.device.keys := Table.insert?_isSome
    split
    · rename_i hnone
      rw [hnone] at hins
      simpa [hw] using hins
    · rename_i device hsome
      rw [hsome] at hins
      simpa [hw] using hins
  · rename_i hw
    simp [hw]

/-- **`updateDeviceStatus`** writes the status of one device and nothing
else. -/
theorem updateDeviceStatus_spec {db db' : Database} {serial : String} {st : DeviceState}
    (h : db.updateDeviceStatus serial st = some db') :
    (∀ s, db'.status s = if s = serial then some st else db.status s) ∧
      db'.reservations = db.reservations ∧ db'.workerOf = db.workerOf := by
  rw [updateDeviceStatus] at h
  split at h
  · rename_i hmem
    obtain rfl := Option.some.inj h
    refine ⟨fun s => ?_, rfl, workerOf_setStatus _ _ _⟩
    rw [status_setStatus]
    by_cases hs : s = serial
    · subst hs
      obtain ⟨st', hst⟩ := Option.ne_none_iff_exists'.mp fun hnone => status_eq_none.mp hnone hmem
      simp [hst]
    · simp [hs]
  · cases h

/-- A device that is a candidate of `makeReservations` is available. -/
theorem status_of_mem_available {db : Database} {r : ReservedRow} (h : r ∈ db.available) :
    db.status r.serial = some .available := by
  obtain ⟨d, hd, hk, hst⟩ := available_serial h
  exact status_eq_some.mpr ⟨d, hd, hk, hst⟩

/-- The candidates have pairwise distinct serials. -/
theorem nodup_available_serials (db : Database) :
    (db.available.map ReservedRow.serial).Nodup := by
  -- each device contributes its own serial at most once
  have hblock : ∀ d : DeviceRow, (((db.worker.rows.filter fun w =>
      w.workerName = d.worker).map fun w =>
        (⟨d.serialId, w.host, w.serverPort⟩ : ReservedRow)).map ReservedRow.serial).Sublist
          [d.serialId] := by
    intro d
    rw [db.worker.filter_key d.worker]
    cases db.worker.find? d.worker with
    | none => exact List.nil_sublist _
    | some w => exact List.Sublist.refl _
  have hsub : ∀ l : List DeviceRow, ((l.flatMap fun d =>
      (db.worker.rows.filter fun w => w.workerName = d.worker).map fun w =>
        (⟨d.serialId, w.host, w.serverPort⟩ : ReservedRow)).map ReservedRow.serial).Sublist
          (l.map DeviceRow.serialId) := by
    intro l
    induction l with
    | nil => exact List.Sublist.refl _
    | cons d l ih =>
      rw [List.flatMap_cons, List.map_append, List.map_cons]
      exact (hblock d).append ih
  exact (db.device.nodup.sublist (List.filter_sublist.map _)).sublist (hsub _)

/-- The number of available devices. -/
def countAvailable (db : Database) : ℕ :=
  db.device.rows.countP fun d => d.deviceStatus = .available

/-- Every device has its worker, so none is lost in the join. -/
@[simp] theorem length_available (db : Database) : db.available.length = db.countAvailable := by
  have hone : ∀ d ∈ db.device.rows, ((db.worker.rows.filter fun w =>
      w.workerName = d.worker).map fun w =>
        (⟨d.serialId, w.host, w.serverPort⟩ : ReservedRow)).length = 1 := by
    intro d hd
    obtain ⟨w, hw, hk⟩ := Table.mem_keys.mp (db.deviceWorker d hd)
    simp [Table.find?_eq_some.mpr ⟨hw, hk⟩]
  have hlist : ∀ l : List DeviceRow, (∀ d ∈ l, d ∈ db.device.rows) →
      (l.flatMap fun d => (db.worker.rows.filter fun w => w.workerName = d.worker).map fun w =>
        (⟨d.serialId, w.host, w.serverPort⟩ : ReservedRow)).length = l.length := by
    intro l hl
    induction l with
    | nil => rfl
    | cons d l ih =>
      rw [List.flatMap_cons, List.length_append, hone d (hl d List.mem_cons_self),
        ih fun d hd => hl d (List.mem_cons_of_mem _ hd), List.length_cons, Nat.add_comm]
  rw [available, hlist _ fun d hd => List.mem_of_mem_filter hd, countAvailable,
    List.countP_eq_length_filter]

/-- **What `makeReservations` leaves**: the statuses of the devices picked and
the new reservations, and nothing else. -/
theorem makeReservations_rows {db db' : Database} {amount now : ℤ} {clientName : String}
    {res rows : List ReservedRow}
    (h : db.makeReservations amount clientName now res = some (db', rows)) :
    rows = res ∧ IsLimit amount.toNat db.available res ∧ db'.worker = db.worker ∧
      db'.device = (db.setStatus (fun s => s ∈ res.map ReservedRow.serial) .reserved).device ∧
      db.reservations.insertAll? (newReservations res clientName now) = some db'.reservations := by
  rw [makeReservations] at h
  split at h
  · rename_i hlim
    obtain ⟨db₁, hreserve, heq⟩ := Option.map_eq_some_iff.mp h
    obtain ⟨rfl, rfl⟩ := Prod.mk.inj heq
    rw [reserve] at hreserve
    split at hreserve
    · cases hreserve
    · rename_i reservations hins
      obtain rfl := Option.some.inj hreserve
      exact ⟨rfl, hlim.2, rfl, rfl, hins⟩
  · cases h

/-- The reservations it adds are for the devices it picked. -/
@[simp]
theorem map_device_newReservations (res : List ReservedRow) (clientName : String) (now : ℤ) :
    (newReservations res clientName now).map ReservationRow.device =
      res.map ReservedRow.serial := by
  rw [newReservations, List.map_map]
  rfl

/-- **`makeReservations`** reserves the available devices it picked and returns
their rows. -/
theorem makeReservations_spec {db db' : Database} {amount now : ℤ} {clientName : String}
    {res rows : List ReservedRow}
    (h : db.makeReservations amount clientName now res = some (db', rows)) :
    rows = res ∧ IsLimit amount.toNat db.available res ∧
      (∀ s ∈ res.map ReservedRow.serial, db.status s = some .available ∧ ¬db.IsReserved s) ∧
      (∀ s, db'.status s =
        if s ∈ res.map ReservedRow.serial then some .reserved else db.status s) ∧
      (∀ s, db'.IsReserved s ↔ db.IsReserved s ∨ s ∈ res.map ReservedRow.serial) ∧
      db'.workerOf = db.workerOf := by
  obtain ⟨hrows, hlim, hworker, hdevice, hins⟩ := makeReservations_rows h
  have hkeys := map_device_newReservations res clientName now
  have havail : ∀ s ∈ res.map ReservedRow.serial, db.status s = some .available := by
    rintro s hs
    obtain ⟨r, hr, rfl⟩ := List.mem_map.mp hs
    exact status_of_mem_available (hlim.mem hr)
  refine ⟨hrows, hlim, fun s hs => ⟨havail s hs, ?_⟩, fun s => ?_, fun s => ?_, ?_⟩
  · obtain ⟨r, hr, rfl⟩ := List.mem_map.mp (hkeys ▸ hs)
    exact Table.not_mem_keys_of_insertAll? hins hr
  · have hstatus := status_setStatus db (fun s => s ∈ res.map ReservedRow.serial) .reserved s
    rw [status, ← hdevice] at hstatus
    refine hstatus.trans ?_
    by_cases hs : s ∈ res.map ReservedRow.serial
    · rw [if_pos hs, if_pos (by simpa using hs), havail s hs]
      rfl
    · rw [if_neg hs, if_neg (by simpa using hs)]
  · rw [IsReserved, Table.keys, Table.insertAll?_rows hins, List.map_append, List.mem_append, hkeys]
    rfl
  · have hof := workerOf_setStatus db (fun s => s ∈ res.map ReservedRow.serial) .reserved
    funext s
    rw [← hof, workerOf, workerOf, hdevice, hworker]
    rfl

/-- **`makeReservations`** adds its reservations to those there are. -/
theorem mem_reservations_makeReservations {db db' : Database} {amount now : ℤ} {clientName : String}
    {res rows : List ReservedRow}
    (h : db.makeReservations amount clientName now res = some (db', rows)) {r : ReservationRow} :
    r ∈ db'.reservations ↔ r ∈ db.reservations ∨ r ∈ newReservations rows clientName now := by
  obtain ⟨rfl, -, -, -, hins⟩ := makeReservations_rows h
  rw [Table.mem_def, Table.insertAll?_rows hins, List.mem_append, Table.mem_def]

/-- The device of a reservation has a worker. -/
theorem exists_workerOf {db : Database} {r : ReservationRow} (h : r ∈ db.reservations) :
    ∃ d ∈ db.device, d.serialId = r.device ∧ ∃ w ∈ db.worker, w.workerName = d.worker ∧
      db.workerOf r.device = some w := by
  obtain ⟨d, hd, hdk⟩ := Table.mem_keys.mp (db.reservationsDevice r h)
  obtain ⟨w, hw, hwk⟩ := Table.mem_keys.mp (db.deviceWorker d hd)
  refine ⟨d, hd, hdk, w, hw, hwk, ?_⟩
  rw [workerOf, Table.find?_eq_some.mpr ⟨hd, hdk⟩, Option.bind_some]
  exact Table.find?_eq_some.mpr ⟨hw, hwk⟩

/-- **What a join finds for a reservation**: one reservation of its device, one
device, and one worker. -/
theorem exists_joined {db : Database} {r : ReservationRow} (h : r ∈ db.reservations) :
    ∃ d w, db.reservations.rows.filter (fun r' => r.device = r'.device) = [r] ∧
      db.device.rows.filter (fun d' => r.device = d'.serialId) = [d] ∧
      db.worker.rows.filter (fun w' => d.worker = w'.workerName) = [w] ∧
      db.workerOf r.device = some w := by
  obtain ⟨d, hd, hdk, w, hw, hwk, hworker⟩ := exists_workerOf h
  exact ⟨d, w, Table.filter_key_of_mem h rfl, Table.filter_key_of_mem hd hdk,
    Table.filter_key_of_mem hw hwk, hworker⟩

/-- **The join of `endStaged` finds one row a reserved serial.** -/
theorem endedRows_serials {db : Database} {res : List String} (hres : ∀ s ∈ res, db.IsReserved s) :
    (db.endedRows res).map EndedRow.serial = res := by
  induction res with
  | nil => rfl
  | cons s res ih =>
    obtain ⟨r, hr, rfl⟩ := Table.mem_keys.mp (hres s List.mem_cons_self)
    obtain ⟨d, w, h₁, h₂, h₃, -⟩ := exists_joined hr
    have hrest := ih fun s hs => hres s (List.mem_cons_of_mem _ hs)
    rw [endedRows] at hrest ⊢
    rw [List.flatMap_cons, List.map_append, hrest, h₁, List.flatMap_singleton, h₂,
      List.flatMap_singleton, h₃]
    rfl

/-- The rows it returns are addressed to the devices' workers. -/
theorem address_of_mem_endedRows {db : Database} {res : List String} {row : EndedRow}
    (h : row ∈ db.endedRows res) :
    ∃ w, db.workerOf row.serial = some w ∧
      row.workerip = w.host ∧ row.workerport = w.serverPort := by
  obtain ⟨s, -, h⟩ := List.mem_flatMap.mp h
  obtain ⟨r, -, h⟩ := List.mem_flatMap.mp h
  obtain ⟨d, hd, h⟩ := List.mem_flatMap.mp h
  obtain ⟨w, hw, rfl⟩ := List.mem_map.mp h
  obtain ⟨hd, hds⟩ := List.mem_filter.mp hd
  obtain ⟨hw, hdw⟩ := List.mem_filter.mp hw
  refine ⟨w, ?_, rfl, rfl⟩
  rw [workerOf, Table.find?_eq_some.mpr ⟨hd, (of_decide_eq_true hds).symm⟩, Option.bind_some]
  exact Table.find?_eq_some.mpr ⟨hw, (of_decide_eq_true hdw).symm⟩

/-- **Ending reservations** deletes those of the staged serials. -/
theorem endStaged_spec {db : Database} {res : List String} (hres : ∀ s ∈ res, db.IsReserved s) :
    (∀ s, (db.endStaged res).1.status s =
        if s ∈ res then some .awaitFlashDefault else db.status s) ∧
      (∀ s, (db.endStaged res).1.IsReserved s ↔ db.IsReserved s ∧ s ∉ res) ∧
      (db.endStaged res).1.workerOf = db.workerOf := by
  refine ⟨fun s => ?_, fun s => ?_, workerOf_setStatus db (fun s => s ∈ res) .awaitFlashDefault⟩
  · refine (status_setStatus db (fun s => s ∈ res) .awaitFlashDefault s).trans ?_
    by_cases hs : s ∈ res
    · obtain ⟨st, hst⟩ := Option.ne_none_iff_exists'.mp fun hnone =>
        status_eq_none.mp hnone (hres s hs).mem_keys
      rw [if_pos hs, if_pos (by simpa using hs), hst]
      rfl
    · rw [if_neg hs, if_neg (by simpa using hs)]
  · constructor
    · intro h
      obtain ⟨r, hr, rfl⟩ := Table.mem_keys.mp h
      obtain ⟨hr, hno⟩ := Table.mem_delete.mp hr
      exact ⟨Table.key_mem_keys hr, by simpa using hno⟩
    · rintro ⟨h, hno⟩
      obtain ⟨r, hr, rfl⟩ := Table.mem_keys.mp h
      exact Table.mem_keys.mpr ⟨r, Table.mem_delete.mpr ⟨hr, by simpa using hno⟩, rfl⟩

/-- **What the functions that end reservations stage**: reserved serials, each
once. -/
theorem staged_spec (db : Database) (p : ReservationRow → Bool) :
    (∀ s ∈ (db.reservations.rows.filter p).map ReservationRow.device, db.IsReserved s) ∧
      ((db.reservations.rows.filter p).map ReservationRow.device).Nodup := by
  refine ⟨fun s hs => ?_, db.reservations.nodup.sublist (List.filter_sublist.map _)⟩
  obtain ⟨r, hr, rfl⟩ := List.mem_map.mp hs
  exact Table.key_mem_keys (List.mem_filter.mp hr).1

/-- **When `makeReservations` goes through**: no device it may pick has a
reservation. -/
theorem makeReservations_isSome {db : Database} {amount now : ℤ} {clientName : String}
    {res : List ReservedRow} (hamount : 0 ≤ amount) (hlim : IsLimit amount.toNat db.available res)
    (hfree : ∀ s, db.status s = some .available → ¬db.IsReserved s) :
    (db.makeReservations amount clientName now res).isSome := by
  have hkeys := map_device_newReservations res clientName now
  have hins : (db.reservations.insertAll? (newReservations res clientName now)).isSome := by
    refine Table.insertAll?_isSome (fun r hr hmem => ?_)
      (hkeys ▸ hlim.nodup_map db.nodup_available_serials)
    obtain ⟨x, hx, rfl⟩ := List.mem_map.mp hr
    exact hfree _ (status_of_mem_available (hlim.mem hx)) hmem
  rw [makeReservations, dif_pos ⟨hamount, hlim⟩, Option.isSome_map, reserve]
  split
  · rename_i hnone
    rw [hnone] at hins
    cases hins
  · rfl

/-- A worker with one device, which is available. -/
def oneAvailable : Database where
  worker := ⟨[⟨"pi", "10.0.0.1", 8081, 0⟩], by decide⟩
  device := ⟨[⟨"A", "pi", .available⟩], by decide⟩
  reservations := ∅
  deviceWorker := by decide
  reservationsDevice := by decide

end Database

end UsbipIce
