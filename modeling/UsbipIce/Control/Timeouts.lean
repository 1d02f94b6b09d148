import UsbipIce.Control.Statements

/-!
# Timeouts

The procedures by which rows go away of themselves: `handleReservationTimeouts`
of `V1.3__ReservationProc.sql`, and `removeWorker` and `handleWorkerTimeouts` of
`V1.1__WorkerProc.sql`, whose deletes cascade from `Worker` to `Device` and from
there to `Reservations`.

Each returns a table by `RETURN QUERY`, and PostgreSQL checks that query when it
is executed, whatever rows there are (`Lib.Relation.returnQuery_isSome_iff`). Two
of the three fail the check. `handleReservationTimeouts` declares two columns and
returns four, so no reservation ever expires
(`UsbipIce.Database.never_expires`); with four declared it would do its work
(`UsbipIce.Database.expiresReservations_iff`). `removeWorker` selects a column
that no table has, so no worker is ever removed by it
(`UsbipIce.Database.removal_agrees_iff`); with columns that exist it would leave
the tables as `handleWorkerTimeouts` leaves them
(`UsbipIce.Database.removalAgrees_of_resolves`).
-/

namespace UsbipIce

open Lib

namespace Database

/-! ### Expired reservations -/

/-- `handleReservationTimeouts`, with the columns `declared` in its `RETURNS
TABLE`. -/
def handleReservationTimeoutsReturning (declared : List String) (now : ℤ) : Function := fun db =>
  let res := (db.reservations.rows.filter fun r => r.till < now).map ReservationRow.device
  let query := Relation.ofRows StagedRow.columns
    (declared.map fun name => (⟨"handlereservationtimeouts", name⟩, SqlValue.null))
    (db.joinStaged res) StagedRow.values StagedRow.length_values
  (query.returnQuery declared [.qualified "res" "Device", .qualified "reservations" "clientname",
    .qualified "worker" "host", .qualified "worker" "serverport"]).map fun rows =>
      ((db.endStaged res).1, rows)

/-- `handleReservationTimeouts`. -/
def handleReservationTimeouts : ℤ → Function :=
  handleReservationTimeoutsReturning ["Device", "ClientName"]

/-- `ControlDatabase.getReservationTimeouts`, by a given function. -/
def getReservationTimeoutsBy (f : Function) (db : Database) : Database × Fetched :=
  db.getData f ["serial", "client_id", "workerip", "workerport"] ["workerip", "workerport"]

/-- `ControlDatabase.getReservationTimeouts`. -/
def getReservationTimeouts (db : Database) (now : ℤ) : Database × Fetched :=
  getReservationTimeoutsBy (handleReservationTimeouts now) db

/-- The reservations that have run out. -/
def expired (db : Database) (now : ℤ) : List ReservationRow :=
  db.reservations.rows.filter fun r => r.till < now

/-- What `getReservationTimeouts` is to return for a reservation. -/
def expiredDict (r : ReservationRow) (w : WorkerRow) : RowDict :=
  [("serial", .text r.device), ("client_id", .text r.clientName), ("workerip", .text w.host),
    ("workerport", .text (toString w.serverPort))]

/-- **What a version of `handleReservationTimeouts` is for**: read by
`getReservationTimeouts`, it deletes exactly the expired reservations, sets
exactly their devices to `await_flash_default`, and returns one row for each,
with its worker. -/
def ExpiresReservations (f : Function) (db : Database) (now : ℤ) : Prop :=
  ∃ db' data, getReservationTimeoutsBy f db = (db', .rows data) ∧
    db'.worker.rows = db.worker.rows ∧
    db'.device.rows = db.device.rows.map (fun d =>
      if d.serialId ∈ (db.expired now).map ReservationRow.device then
        { d with deviceStatus := .awaitFlashDefault } else d) ∧
    db'.reservations.rows = (db.reservations.rows.filter fun r => ¬r.till < now) ∧
    (data.map some).Perm ((db.expired now).map fun r =>
      (db.workerOf r.device).map (expiredDict r))

/-- The columns declared decide, and the tables do not. -/
theorem handleReservationTimeoutsReturning_eq (declared : List String) (now : ℤ) (db : Database) :
    handleReservationTimeoutsReturning declared now db =
      if declared.length = 4 then
        some ((db.endStaged ((db.expired now).map ReservationRow.device)).1,
          (db.joinStaged ((db.expired now).map ReservationRow.device)).map fun x =>
            [.text x.serial, .text x.reservation.clientName, .text x.worker.host,
              .int x.worker.serverPort])
      else none := by
  have hrefs : Relation.resolveAll StagedRow.columns [.qualified "res" "Device",
      .qualified "reservations" "clientname", .qualified "worker" "host",
      .qualified "worker" "serverport"] = some [0, 2, 8, 9] := by decide
  rw [handleReservationTimeoutsReturning]
  split
  · rename_i hlength
    rw [Relation.returnQuery_ofRows StagedRow.length_values (by simp [ColumnRef.refersTo]) hrefs
      hlength.symm]
    rfl
  · rename_i hlength
    rw [Option.map_eq_none_iff, ← Option.not_isSome_iff_eq_none, Relation.returnQuery_isSome_iff]
    rintro ⟨-, hwidth⟩
    exact hlength hwidth.symm

/-- **What it would take**: `handleReservationTimeouts` does its work, on every
content of the tables, exactly when the table it declares has four columns. -/
theorem expiresReservations_iff (declared : List String) (db : Database) (now : ℤ) :
    ExpiresReservations (handleReservationTimeoutsReturning declared now) db now ↔
      declared.length = 4 := by
  constructor
  · rintro ⟨db', data, hget, -⟩
    by_contra hlength
    rw [getReservationTimeoutsBy, getData, execute, handleReservationTimeoutsReturning_eq,
      if_neg hlength] at hget
    cases (Prod.mk.inj hget).2
  · intro hlength
    obtain ⟨hmap, hall⟩ := db.joinStaged_spec fun r => decide (r.till < now)
    rw [ExpiresReservations, getReservationTimeoutsBy, getData, execute,
      handleReservationTimeoutsReturning_eq, if_pos hlength]
    refine ⟨_, (db.joinStaged ((db.expired now).map ReservationRow.device)).map fun x =>
      [("serial", .text x.serial), ("client_id", .text x.reservation.clientName),
        ("workerip", .text x.worker.host), ("workerport", .text (toString x.worker.serverPort))],
      Prod.ext rfl (fetched_map fun x => rfl), rfl, ?_, ?_, ?_⟩
    · exact List.map_congr_left fun d _ => by simp
    · -- a reservation is staged if and only if it has expired itself
      refine List.filter_congr fun r hr => ?_
      have hstaged : r.device ∈ (db.expired now).map ReservationRow.device ↔ r.till < now :=
        (mem_map_device_filter hr).trans decide_eq_true_iff
      by_cases htill : r.till < now <;> simp [hstaged, htill]
    · refine List.Perm.of_eq ?_
      have hexpired : db.expired now = (db.joinStaged ((db.expired now).map
          ReservationRow.device)).map StagedRow.reservation := hmap.symm
      rw [List.map_map]
      conv_rhs => rw [hexpired]
      rw [List.map_map]
      refine List.map_congr_left fun x hx => ?_
      obtain ⟨hserial, hworker⟩ := hall x hx
      rw [Function.comp_apply, Function.comp_apply, ← hserial, hworker, Option.map_some,
        expiredDict, hserial]

/-- **No reservation ever expires.** Whatever the tables hold and whatever the
time, `handleReservationTimeouts` raises, the tables stay as they are, and
`getReservationTimeouts` answers `False`. -/
theorem never_expires (db : Database) (now : ℤ) :
    handleReservationTimeouts now db = none ∧ db.getReservationTimeouts now = (db, .failed) ∧
      ¬ExpiresReservations (handleReservationTimeouts now) db now := by
  have hnone : handleReservationTimeouts now db = none := by
    rw [handleReservationTimeouts, handleReservationTimeoutsReturning_eq]
    rfl
  refine ⟨hnone, ?_, ?_⟩
  · rw [getReservationTimeouts, getReservationTimeoutsBy, getData, execute, hnone]
    rfl
  · rw [handleReservationTimeouts, expiresReservations_iff]
    decide

/-- A reservation that ran out ten seconds ago. -/
def lateReservation : Database where
  worker := ⟨[⟨"desk", "10.0.0.1", 8081, 95⟩], by decide⟩
  device := ⟨[⟨"A", "desk", .reserved⟩], by decide⟩
  reservations := ⟨[⟨"A", "client", 90⟩], by decide⟩
  deviceWorker := by decide
  reservationsDevice := by decide

/-- **A reservation that has run out and stays.** -/
theorem lateReservation_stays :
    lateReservation.expired 100 = [⟨"A", "client", 90⟩] ∧
      lateReservation.getReservationTimeouts 100 = (lateReservation, .failed) ∧
      ¬ExpiresReservations (handleReservationTimeouts 100) lateReservation 100 := by
  refine ⟨rfl, rfl, ?_⟩
  rintro ⟨db', data, hget, -⟩
  have hfailed : getReservationTimeoutsBy (handleReservationTimeouts 100) lateReservation =
      (lateReservation, .failed) := rfl
  rw [hfailed] at hget
  cases (Prod.mk.inj hget).2

/-! ### Workers that go -/

/-- `DELETE FROM Worker WHERE p`, with its two cascades: to the devices of the
workers deleted, and to the reservations of these devices. -/
def deleteWorkers (db : Database) (p : WorkerRow → Bool) : Database :=
  let workers := (db.worker.rows.filter p).map WorkerRow.workerName
  let devices := (db.device.rows.filter fun d => d.worker ∈ workers).map DeviceRow.serialId
  { worker := db.worker.delete p
    device := db.device.delete fun d => d.worker ∈ workers
    reservations := db.reservations.delete fun r => r.device ∈ devices
    deviceWorker := by
      intro d hd
      obtain ⟨hd, hno⟩ := Table.mem_delete.mp hd
      obtain ⟨w, hw, hwk⟩ := Table.mem_keys.mp (db.deviceWorker d hd)
      refine Table.mem_keys.mpr ⟨w, Table.mem_delete.mpr ⟨hw, ?_⟩, hwk⟩
      by_contra hp
      refine of_decide_eq_false hno (List.mem_map.mpr ⟨w, List.mem_filter.mpr ⟨hw, ?_⟩, hwk⟩)
      simpa using hp
    reservationsDevice := by
      intro r hr
      obtain ⟨hr, hno⟩ := Table.mem_delete.mp hr
      obtain ⟨d, hd, hdk⟩ := Table.mem_keys.mp (db.reservationsDevice r hr)
      refine Table.mem_keys.mpr ⟨d, Table.mem_delete.mpr ⟨hd, ?_⟩, hdk⟩
      by_contra hp
      refine of_decide_eq_false hno (List.mem_map.mpr ⟨d, List.mem_filter.mpr ⟨hd, ?_⟩, hdk⟩)
      simpa using hp }

/-- The reservations of devices of workers that `p` selects. -/
def lost (db : Database) (p : WorkerRow → Bool) : List ReservationRow :=
  db.reservations.rows.filter fun r => (db.workerOf r.device).any p

/-- **The cascade takes the devices of the workers, and their reservations, and
nothing else.** -/
theorem deleteWorkers_spec (db : Database) (p : WorkerRow → Bool) :
    (db.deleteWorkers p).worker.rows = (db.worker.rows.filter fun w => !p w) ∧
      (db.deleteWorkers p).device.rows =
        (db.device.rows.filter fun d => !(db.worker.find? d.worker).any p) ∧
      (db.deleteWorkers p).reservations.rows =
        (db.reservations.rows.filter fun r => !(db.workerOf r.device).any p) := by
  have hworker : ∀ d : DeviceRow, d.worker ∈ (db.worker.rows.filter p).map WorkerRow.workerName ↔
      (db.worker.find? d.worker).any p = true := by
    intro d
    rw [Option.any_eq_true]
    constructor
    · intro h
      obtain ⟨w, hw, hk⟩ := List.mem_map.mp h
      obtain ⟨hw, hp⟩ := List.mem_filter.mp hw
      exact ⟨w, Table.find?_eq_some.mpr ⟨hw, hk⟩, hp⟩
    · rintro ⟨w, hfind, hp⟩
      obtain ⟨hw, hk⟩ := Table.find?_eq_some.mp hfind
      exact List.mem_map.mpr ⟨w, List.mem_filter.mpr ⟨hw, hp⟩, hk⟩
  have hdevice : ∀ r : ReservationRow, r.device ∈ (db.device.rows.filter fun d =>
      d.worker ∈ (db.worker.rows.filter p).map WorkerRow.workerName).map DeviceRow.serialId ↔
      (db.workerOf r.device).any p = true := by
    intro r
    rw [Option.any_eq_true, workerOf]
    constructor
    · intro h
      obtain ⟨d, hd, hk⟩ := List.mem_map.mp h
      obtain ⟨hd, hmem⟩ := List.mem_filter.mp hd
      obtain ⟨w, hfind, hp⟩ := (Option.any_eq_true _ _).mp ((hworker d).mp (of_decide_eq_true hmem))
      refine ⟨w, ?_, hp⟩
      rw [Table.find?_eq_some.mpr ⟨hd, hk⟩]
      exact hfind
    · rintro ⟨w, hfind, hp⟩
      obtain ⟨d, hd, hfind⟩ := Option.bind_eq_some_iff.mp hfind
      obtain ⟨hd, hk⟩ := Table.find?_eq_some.mp hd
      refine List.mem_map.mpr ⟨d, List.mem_filter.mpr ⟨hd, decide_eq_true ((hworker d).mpr ?_)⟩, hk⟩
      exact (Option.any_eq_true _ _).mpr ⟨w, hfind, hp⟩
  refine ⟨rfl, List.filter_congr fun d _ => ?_, List.filter_congr fun r _ => ?_⟩
  · rw [Bool.eq_iff_iff]
    simp only [Bool.not_eq_true', decide_eq_false_iff_not, hworker d, Bool.not_eq_true]
  · rw [Bool.eq_iff_iff]
    simp only [Bool.not_eq_true', decide_eq_false_iff_not, hdevice r, Bool.not_eq_true]

/-- A row of the join of `Reservations` and `Device`. -/
structure HostedRow where
  reservation : ReservationRow
  device : DeviceRow

def HostedRow.values (x : HostedRow) : List SqlValue := x.reservation.values ++ x.device.values

def HostedRow.columns : List Column := ReservationRow.columns ++ DeviceRow.columns

@[simp]
theorem HostedRow.length_values (x : HostedRow) : x.values.length = HostedRow.columns.length := rfl

/-- `FROM Reservations INNER JOIN Device … WHERE Device.Worker = wname`. -/
def joinHosted (db : Database) (wname : String) : List HostedRow :=
  db.reservations.rows.flatMap fun r =>
    (db.device.rows.filter fun d => r.device = d.serialId ∧ d.worker = wname).map fun d => ⟨r, d⟩

/-- The variables of `removeWorker`: its parameter and the columns it returns. -/
def removeWorkerLocals (wname : String) : List (Column × SqlValue) :=
  [(⟨"removeworker", "wname"⟩, .text wname), (⟨"removeworker", "NotificationUrl"⟩, .null),
    (⟨"removeworker", "SerialId"⟩, .null)]

/-- `removeWorker`, with the columns `refs` in its `SELECT`. -/
def removeWorkerSelecting (refs : List ColumnRef) (wname : String) : Function := fun db =>
  if wname ∈ db.worker.keys then
    let query := Relation.ofRows HostedRow.columns (removeWorkerLocals wname)
      (db.joinHosted wname) HostedRow.values HostedRow.length_values
    (query.returnQuery ["NotificationUrl", "SerialId"] refs).map fun rows =>
      (db.deleteWorkers fun w => w.workerName = wname, rows)
  else none

/-- `removeWorker`. -/
def removeWorker : String → Function :=
  removeWorkerSelecting [.bare "notificationurl", .bare "device"]

/-- A row of the join of `Worker`, `Device` and `Reservations`. -/
structure TimeoutRow where
  worker : WorkerRow
  device : DeviceRow
  reservation : ReservationRow

def TimeoutRow.values (x : TimeoutRow) : List SqlValue :=
  x.worker.values ++ x.device.values ++ x.reservation.values

def TimeoutRow.columns : List Column :=
  WorkerRow.columns ++ DeviceRow.columns ++ ReservationRow.columns

@[simp] theorem TimeoutRow.length_values (x : TimeoutRow) :
    x.values.length = TimeoutRow.columns.length := rfl

/-- `FROM Worker INNER JOIN Device … INNER JOIN Reservations … WHERE p`. -/
def joinTimeouts (db : Database) (p : WorkerRow → Bool) : List TimeoutRow :=
  (db.worker.rows.filter p).flatMap fun w =>
    (db.device.rows.filter fun d => w.workerName = d.worker).flatMap fun d =>
      (db.reservations.rows.filter fun r => r.device = d.serialId).map fun r => ⟨w, d, r⟩

/-- A worker whose last heartbeat is older than `s` seconds. -/
def isLate (now s : ℤ) (w : WorkerRow) : Bool := w.lastHeartbeat < now - s

/-- `handleWorkerTimeouts`. -/
def handleWorkerTimeouts (now s : ℤ) : Function := fun db =>
  let query := Relation.ofRows TimeoutRow.columns
    [(⟨"handleworkertimeouts", "s"⟩, .int s), (⟨"handleworkertimeouts", "t"⟩, .int (now - s)),
      (⟨"handleworkertimeouts", "SerialId"⟩, .null),
      (⟨"handleworkertimeouts", "ClientName"⟩, .null),
      (⟨"handleworkertimeouts", "WorkerName"⟩, .null)]
    (db.joinTimeouts (isLate now s)) TimeoutRow.values TimeoutRow.length_values
  (query.returnQuery ["SerialId", "ClientName", "WorkerName"]
    [.qualified "device" "serialid", .qualified "reservations" "clientname",
      .qualified "worker" "workername"]).map fun rows =>
        (db.deleteWorkers (isLate now s), rows)

/-! ### What the joins find -/

theorem mem_joinTimeouts {db : Database} {p : WorkerRow → Bool} {x : TimeoutRow} :
    x ∈ db.joinTimeouts p ↔ (x.worker ∈ db.worker ∧ p x.worker = true) ∧
      (x.device ∈ db.device ∧ x.worker.workerName = x.device.worker) ∧
      x.reservation ∈ db.reservations ∧ x.reservation.device = x.device.serialId := by
  simp only [joinTimeouts, List.mem_flatMap, List.mem_map, List.mem_filter, decide_eq_true_eq,
    Table.mem_def]
  constructor
  · rintro ⟨w, hw, d, hd, r, hr, rfl⟩
    exact ⟨hw, hd, hr⟩
  · rintro ⟨hw, hd, hr⟩
    exact ⟨x.worker, hw, x.device, hd, x.reservation, hr, rfl⟩

/-- The join of a worker timeout finds the reservation's own worker. -/
theorem workerOf_of_mem_joinTimeouts {db : Database} {p : WorkerRow → Bool} {x : TimeoutRow}
    (hx : x ∈ db.joinTimeouts p) : db.workerOf x.reservation.device = some x.worker := by
  obtain ⟨⟨hw, -⟩, ⟨hd, hwd⟩, -, hrd⟩ := mem_joinTimeouts.mp hx
  rw [workerOf, Table.find?_eq_some.mpr ⟨hd, hrd.symm⟩, Option.bind_some]
  exact Table.find?_eq_some.mpr ⟨hw, hwd⟩

/-- **`handleWorkerTimeouts` reports each reservation its delete takes, once.** -/
theorem joinTimeouts_perm (db : Database) (p : WorkerRow → Bool) :
    ((db.joinTimeouts p).map TimeoutRow.reservation).Perm (db.lost p) := by
  have hrows : (db.joinTimeouts p).Nodup := by
    refine Table.nodup_flatMap_of_key (db.worker.nodup.sublist (List.filter_sublist.map _)) ?_ ?_
    · intro w _
      refine Table.nodup_flatMap_of_key (db.device.nodup.sublist (List.filter_sublist.map _)) ?_ ?_
      · intro d _
        refine ((List.Nodup.of_map _ db.reservations.nodup).filter _).map fun r r' h => ?_
        exact (TimeoutRow.mk.inj h).2.2
      · intro d _ d' _ x hx hx'
        obtain ⟨r, -, rfl⟩ := List.mem_map.mp hx
        obtain ⟨r', -, heq⟩ := List.mem_map.mp hx'
        rw [(TimeoutRow.mk.inj heq).2.1]
    · intro w _ w' _ x hx hx'
      obtain ⟨d, -, hd⟩ := List.mem_flatMap.mp hx
      obtain ⟨r, -, rfl⟩ := List.mem_map.mp hd
      obtain ⟨d', -, hd'⟩ := List.mem_flatMap.mp hx'
      obtain ⟨r', -, heq⟩ := List.mem_map.mp hd'
      rw [(TimeoutRow.mk.inj heq).1]
  -- a reservation names its device, and the device its worker
  have hnodup : ((db.joinTimeouts p).map TimeoutRow.reservation).Nodup := by
    refine hrows.map_on fun x hx y hy heq => ?_
    obtain ⟨-, ⟨hxd, -⟩, -, hxr⟩ := mem_joinTimeouts.mp hx
    obtain ⟨-, ⟨hyd, -⟩, -, hyr⟩ := mem_joinTimeouts.mp hy
    have hdevice : x.device = y.device :=
      Table.eq_of_key_eq hxd hyd (by rw [← hxr, ← hyr, heq])
    have hworker : x.worker = y.worker := by
      have hx' := workerOf_of_mem_joinTimeouts hx
      rw [heq, workerOf_of_mem_joinTimeouts hy] at hx'
      exact (Option.some.inj hx').symm
    cases x
    cases y
    rw [TimeoutRow.mk.injEq]
    exact ⟨hworker, hdevice, heq⟩
  have hlost : (db.lost p).Nodup := (List.Nodup.of_map _ db.reservations.nodup).filter _
  refine (List.perm_ext_iff_of_nodup hnodup hlost).mpr fun r => ?_
  rw [List.mem_map, lost, List.mem_filter]
  constructor
  · rintro ⟨x, hx, rfl⟩
    refine ⟨(mem_joinTimeouts.mp hx).2.2.1, ?_⟩
    rw [workerOf_of_mem_joinTimeouts hx, Option.any_some]
    exact (mem_joinTimeouts.mp hx).1.2
  · rintro ⟨hr, hp⟩
    obtain ⟨d, hd, hdk, w, hw, hwk, hworker⟩ := exists_workerOf hr
    rw [hworker, Option.any_some] at hp
    exact ⟨⟨w, d, r⟩, mem_joinTimeouts.mpr ⟨⟨hw, hp⟩, ⟨hd, hwk⟩, hr, hdk.symm⟩, rfl⟩

/-- **`removeWorker` would report each reservation its delete takes, once.** -/
theorem joinHosted_spec (db : Database) (wname : String) :
    (db.joinHosted wname).map HostedRow.reservation =
        db.lost (fun w => w.workerName = wname) ∧
      ∀ x ∈ db.joinHosted wname, x.reservation.device = x.device.serialId := by
  have hblock : ∀ r ∈ db.reservations.rows,
      ((db.device.rows.filter fun d => r.device = d.serialId ∧ d.worker = wname).map fun d =>
        (⟨r, d⟩ : HostedRow)).map HostedRow.reservation =
          if (db.workerOf r.device).any (fun w => w.workerName = wname) then [r] else [] := by
    intro r hr
    obtain ⟨d, hd, hdk, w, hw, hwk, hworker⟩ := exists_workerOf hr
    have hone : db.device.rows.filter (fun d' => decide (r.device = d'.serialId)) = [d] :=
      Table.filter_key_of_mem hd hdk
    have hsplit : (db.device.rows.filter fun d => r.device = d.serialId ∧ d.worker = wname) =
        [d].filter fun d => d.worker = wname := by
      rw [← hone, List.filter_filter]
      exact List.filter_congr fun d _ => by rw [Bool.decide_and, Bool.and_comm]
    rw [hsplit, hworker, Option.any_some, hwk]
    by_cases hname : d.worker = wname <;> simp [hname]
  refine ⟨?_, fun x hx => ?_⟩
  · rw [joinHosted, lost, List.map_flatMap, List.flatMap_congr hblock]
    induction db.reservations.rows with
    | nil => rfl
    | cons r l ih =>
      rw [List.flatMap_cons, ih, List.filter_cons]
      split <;> rfl
  · obtain ⟨r, -, hr⟩ := List.mem_flatMap.mp hx
    obtain ⟨d, hd, rfl⟩ := List.mem_map.mp hr
    exact (of_decide_eq_true (List.mem_filter.mp hd).2).1

/-! ### Removing and timing out -/

/-- **What `handleWorkerTimeouts` does**: it always goes through. -/
theorem handleWorkerTimeouts_eq (now s : ℤ) (db : Database) :
    handleWorkerTimeouts now s db =
      some (db.deleteWorkers (isLate now s), (db.joinTimeouts (isLate now s)).map fun x =>
        [.text x.device.serialId, .text x.reservation.clientName, .text x.worker.workerName]) := by
  have hrefs : Relation.resolveAll TimeoutRow.columns [.qualified "device" "serialid",
      .qualified "reservations" "clientname", .qualified "worker" "workername"] =
        some [4, 8, 0] := by decide
  rw [handleWorkerTimeouts, Relation.returnQuery_ofRows TimeoutRow.length_values
    (by simp [ColumnRef.refersTo]) hrefs rfl]
  rfl

/-- Deleting workers depends on the workers there are. -/
theorem deleteWorkers_congr {db : Database} {p q : WorkerRow → Bool}
    (h : ∀ w ∈ db.worker, p w = q w) : db.deleteWorkers p = db.deleteWorkers q ∧
      db.lost p = db.lost q := by
  have hany : ∀ (o : Option WorkerRow), (∀ w ∈ o, w ∈ db.worker) → o.any p = o.any q := by
    intro o ho
    cases o with
    | none => rfl
    | some w => exact h w (ho w rfl)
  have hfind : ∀ k, (db.worker.find? k).any p = (db.worker.find? k).any q :=
    fun k => hany _ fun w hw => (Table.find?_eq_some.mp hw).1
  have hworkerOf : ∀ k, (db.workerOf k).any p = (db.workerOf k).any q := by
    refine fun k => hany _ fun w hw => ?_
    obtain ⟨d, -, hw⟩ := Option.bind_eq_some_iff.mp hw
    exact (Table.find?_eq_some.mp hw).1
  obtain ⟨hw₁, hd₁, hr₁⟩ := db.deleteWorkers_spec p
  obtain ⟨hw₂, hd₂, hr₂⟩ := db.deleteWorkers_spec q
  refine ⟨eq_of_rows ?_ ?_ ?_, List.filter_congr fun r _ => hworkerOf _⟩
  · rw [hw₁, hw₂]
    exact List.filter_congr fun w hw => by rw [h w hw]
  · rw [hd₁, hd₂]
    exact List.filter_congr fun d _ => by rw [hfind]
  · rw [hr₁, hr₂]
    exact List.filter_congr fun r _ => by rw [hworkerOf]

/-- The worker is the only one whose last heartbeat is too old. -/
def OnlyLate (db : Database) (now s : ℤ) (wname : String) : Prop :=
  ∀ w ∈ db.worker, isLate now s w = true ↔ w.workerName = wname

/-- **What a version of `removeWorker` is for**: for a worker there is, it leaves
the tables that `handleWorkerTimeouts` leaves where only this worker is late, and
both report the serials of the reservations deleted; and it raises for no other
worker than one there is not. -/
def RemovalAgrees (f : Function) (db : Database) (wname : String) : Prop :=
  (wname ∈ db.worker.keys → ∃ db' rows, f db = some (db', rows) ∧
    (rows.map fun row => row[1]?).Perm
      ((db.lost fun w => w.workerName = wname).map fun r => some (.text r.device)) ∧
    ∀ now s, db.OnlyLate now s wname → ∃ rows', handleWorkerTimeouts now s db = some (db', rows') ∧
      (rows'.map fun row => row[0]?).Perm
        ((db.lost fun w => w.workerName = wname).map fun r => some (.text r.device))) ∧
  (f db = none ↔ wname ∉ db.worker.keys)

/-- **What it would take**: with two columns that exist, the second of them the
serial of the reservation or of the device, removing a worker is timing it
out. -/
theorem removalAgrees_of_resolves {refs : List ColumnRef} {i j : ℕ} (db : Database)
    (wname : String)
    (hlocals : ∀ ref ∈ refs, ∀ name, ref.refersTo ⟨"removeworker", name⟩ = false)
    (hrefs : Relation.resolveAll HostedRow.columns refs = some [i, j]) (hj : j = 0 ∨ j = 3) :
    RemovalAgrees (removeWorkerSelecting refs wname) db wname := by
  obtain ⟨hlength, hlt⟩ := Relation.resolveAll_spec hrefs
  have hquery : wname ∈ db.worker.keys → removeWorkerSelecting refs wname db =
      some (db.deleteWorkers (fun w => w.workerName = wname),
        (db.joinHosted wname).map fun x => Relation.pick [i, j] x.values) := by
    intro hmem
    have hvars : ∀ ref ∈ refs, ∀ v ∈ removeWorkerLocals wname, ref.refersTo v.1 = false := by
      intro ref href v hv
      simp only [removeWorkerLocals, List.mem_cons, List.not_mem_nil, or_false] at hv
      obtain rfl | rfl | rfl := hv <;> exact hlocals ref href _
    rw [removeWorkerSelecting, if_pos hmem]
    dsimp only
    rw [Relation.returnQuery_ofRows HostedRow.length_values hvars hrefs
      (hlength.symm.trans (by rfl))]
    rfl
  obtain ⟨hmap, hserial⟩ := db.joinHosted_spec wname
  refine ⟨fun hmem => ⟨_, _, hquery hmem, ?_, fun now s hlate => ?_⟩, ?_⟩
  · rw [← hmap, List.map_map, List.map_map]
    refine List.Perm.of_eq (List.map_congr_left fun x hx => ?_)
    have hvalues : ∀ k ∈ [i, j], k < x.values.length := hlt
    have hsecond : (Relation.pick [i, j] x.values)[1]? = x.values[j]? :=
      Relation.getElem?_pick hvalues 1
    rw [Function.comp_apply, hsecond]
    obtain rfl | rfl := hj
    · rfl
    · exact congrArg (fun t => some (SqlValue.text t)) (hserial x hx).symm
  · have hsame : ∀ w ∈ db.worker, isLate now s w = decide (w.workerName = wname) := by
      intro w hw
      rw [Bool.eq_iff_iff, hlate w hw, decide_eq_true_iff]
    obtain ⟨hdelete, hlost⟩ := deleteWorkers_congr hsame
    refine ⟨_, by rw [handleWorkerTimeouts_eq, hdelete], ?_⟩
    have hperm := (db.joinTimeouts_perm (isLate now s)).map fun r =>
      some (SqlValue.text r.device)
    rw [hlost, List.map_map] at hperm
    rw [List.map_map]
    refine List.Perm.trans (List.Perm.of_eq (List.map_congr_left fun x hx => ?_)) hperm
    have hdevice := (mem_joinTimeouts.mp hx).2.2.2
    rw [Function.comp_apply, Function.comp_apply, hdevice]
    rfl
  · constructor
    · intro hnone hmem
      rw [hquery hmem] at hnone
      cases hnone
    · intro hmem
      rw [removeWorkerSelecting, if_neg hmem]

/-- `removeWorker` raises, whatever the tables hold. -/
@[simp]
theorem removeWorker_eq_none (wname : String) (db : Database) : removeWorker wname db = none := by
  rw [removeWorker, removeWorkerSelecting]
  split
  · rw [Option.map_eq_none_iff, ← Option.not_isSome_iff_eq_none, Relation.returnQuery_isSome_iff]
    rintro ⟨hall, -⟩
    have hone := hall (.bare "notificationurl") List.mem_cons_self
    have hzero : (HostedRow.columns ++ (removeWorkerLocals wname).map Prod.fst).countP
        (ColumnRef.bare "notificationurl").refersTo = 0 := by rfl
    cases hzero.symm.trans hone
  · rfl

/-- **Removing a worker does not work**: `removeWorker` does what it is for
exactly where there is no such worker, and it leaves the worker, its devices and
its reservations where there is. -/
theorem removal_agrees_iff (db : Database) (wname : String) :
    (RemovalAgrees (removeWorker wname) db wname ↔ wname ∉ db.worker.keys) ∧
      db.execute (removeWorker wname) = (db, none) := by
  have hnone := removeWorker_eq_none wname db
  refine ⟨⟨fun h => h.2.mp hnone, fun hmem => ⟨fun h => absurd h hmem, ?_⟩⟩, ?_⟩
  · exact iff_of_true hnone hmem
  · rw [execute, hnone]

/-- **A worker that exits and stays.** -/
theorem exitedWorker_stays :
    "desk" ∈ lateReservation.worker.keys ∧
      lateReservation.execute (removeWorker "desk") = (lateReservation, none) ∧
      ¬RemovalAgrees (removeWorker "desk") lateReservation "desk" :=
  ⟨by decide, rfl, fun h => h.2.mp rfl (by decide)⟩

end Database

end UsbipIce
