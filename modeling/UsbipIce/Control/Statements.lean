import UsbipIce.Control.Database
import UsbipIce.Lib.Relation

/-!
# Statements and their results

What the `Database` class of `utils/Database.py` makes of a call of an SQL
function: the rows come as tuples, and `getData` turns them into dictionaries by
position; a call that raises is rolled back, and answers `False`.

The rows of the tables are given with their columns, for the queries whose names
have to be resolved (`Lib.Relation`). The join that the functions ending
reservations share finds each reservation staged once, with its device and its
worker (`UsbipIce.Database.joinStaged_spec`).

Names are written as PostgreSQL reads them, those without quotes in lower case.
-/

namespace UsbipIce

open Lib

/-! ### Results of statements -/

/-- A value as it comes from the database: text (also that of an `inet` or of an
enumeration), a number, or `NULL`. -/
inductive SqlValue where
  | text (s : String)
  | int (n : ℤ)
  | null
  deriving DecidableEq, Repr

/-- `str` of a value. -/
def SqlValue.str : SqlValue → SqlValue
  | .text s => .text s
  | .int n => .text (toString n)
  | .null => .text "None"

/-- The names of `V1__Tables.sql` for the statuses. -/
def DeviceState.label : DeviceState → String
  | .available => "available"
  | .reserved => "reserved"
  | .awaitFlashDefault => "await_flash_default"
  | .flashingDefault => "flashing_default"
  | .testing => "testing"
  | .broken => "broken"

/-- The values of a row of `Worker`, and their columns. -/
def WorkerRow.values (w : WorkerRow) : List SqlValue :=
  [.text w.workerName, .text w.host, .int w.serverPort, .int w.lastHeartbeat]

def WorkerRow.columns : List Column :=
  [⟨"worker", "workername"⟩, ⟨"worker", "host"⟩, ⟨"worker", "serverport"⟩,
    ⟨"worker", "lastheartbeat"⟩]

/-- The values of a row of `Device`, and their columns. -/
def DeviceRow.values (d : DeviceRow) : List SqlValue :=
  [.text d.serialId, .text d.worker, .text d.deviceStatus.label]

def DeviceRow.columns : List Column :=
  [⟨"device", "serialid"⟩, ⟨"device", "worker"⟩, ⟨"device", "devicestatus"⟩]

/-- The values of a row of `Reservations`, and their columns. -/
def ReservationRow.values (r : ReservationRow) : List SqlValue :=
  [.text r.device, .text r.clientName, .int r.till]

def ReservationRow.columns : List Column :=
  [⟨"reservations", "device"⟩, ⟨"reservations", "clientname"⟩, ⟨"reservations", "until"⟩]

@[simp] theorem ReservationRow.length_values (r : ReservationRow) :
    r.values.length = ReservationRow.columns.length := rfl

/-- A row of `getData`: what `dict(zip(columns, row))` yields. -/
abbrev RowDict := List (String × SqlValue)

/-- What `getData` returns. -/
inductive Fetched where
  /-- `False`. -/
  | failed
  /-- It raises: a column to stringify is missing. -/
  | raised
  | rows (data : List RowDict)
  deriving DecidableEq, Repr

/-- `out[i][col] = str(row[col])`, for each of the columns. -/
def stringify (row : RowDict) : List String → Option RowDict
  | [] => some row
  | col :: cols =>
    if col ∈ row.map Prod.fst then
      stringify (row.map fun e => if e.1 = col then (e.1, e.2.str) else e) cols
    else none

/-- The rows of `getData`, from those of `execute`. -/
def fetched (columns cols : List String) : Option (List (List SqlValue)) → Fetched
  | none => .failed
  | some rows =>
    match rows.mapM fun row => stringify (columns.zip row) cols with
    | some data => .rows data
    | none => .raised

/-- Where every row has its columns, so has every row of `getData`. -/
theorem fetched_map {ρ : Type*} {columns cols : List String} {rows : List ρ}
    {values : ρ → List SqlValue} {dict : ρ → RowDict}
    (h : ∀ r, stringify (columns.zip (values r)) cols = some (dict r)) :
    fetched columns cols (some (rows.map values)) = .rows (rows.map dict) := by
  have hmap : (rows.map values).mapM (fun row => stringify (columns.zip row) cols) =
      some (rows.map dict) := by
    induction rows with
    | nil => rfl
    | cons r rows ih => simp [h, ih]
  rw [fetched, hmap]

namespace Database

/-- A function of the database: the tables it leaves and the rows it returns, or
`none` where it raises. -/
abbrev Function := Database → Option (Database × List (List SqlValue))

/-- `Database.execute` of a `SELECT * FROM` a function: an exception is caught,
and leaving the connection by it rolls everything back. -/
def execute (db : Database) (f : Function) : Database × Option (List (List SqlValue)) :=
  match f db with
  | some (db', rows) => (db', some rows)
  | none => (db, none)

/-- `Database.getData`. -/
def getData (db : Database) (f : Function) (columns cols : List String) : Database × Fetched :=
  ((db.execute f).1, fetched columns cols (db.execute f).2)

/-- A database is its rows. -/
theorem eq_of_rows {db db' : Database} (hworker : db.worker.rows = db'.worker.rows)
    (hdevice : db.device.rows = db'.device.rows)
    (hreservations : db.reservations.rows = db'.reservations.rows) : db = db' := by
  obtain ⟨⟨_, _⟩, ⟨_, _⟩, ⟨_, _⟩, _, _⟩ := db
  obtain ⟨⟨_, _⟩, ⟨_, _⟩, ⟨_, _⟩, _, _⟩ := db'
  subst hworker hdevice hreservations
  rfl

/-! ### The join over the staged serials -/

/-- A row of a join of the temporary table `res` with the three tables. -/
structure StagedRow where
  serial : String
  reservation : ReservationRow
  device : DeviceRow
  worker : WorkerRow

/-- The values of such a row, and their columns. -/
def StagedRow.values (x : StagedRow) : List SqlValue :=
  .text x.serial :: (x.reservation.values ++ x.device.values ++ x.worker.values)

def StagedRow.columns : List Column :=
  ⟨"res", "Device"⟩ :: (ReservationRow.columns ++ DeviceRow.columns ++ WorkerRow.columns)

@[simp]
theorem StagedRow.length_values (x : StagedRow) : x.values.length = StagedRow.columns.length := rfl

/-- `res INNER JOIN Reservations … INNER JOIN Device … INNER JOIN Worker …`. -/
def joinStaged (db : Database) (res : List String) : List StagedRow :=
  res.flatMap fun s =>
    (db.reservations.rows.filter fun r => s = r.device).flatMap fun r =>
      (db.device.rows.filter fun d => s = d.serialId).flatMap fun d =>
        (db.worker.rows.filter fun w => d.worker = w.workerName).map fun w => ⟨s, r, d, w⟩

/-- A reservation is named by the device of the rows selected if and only if it
is one of them. -/
theorem mem_map_device_filter {db : Database} {p : ReservationRow → Bool} {r : ReservationRow}
    (h : r ∈ db.reservations) :
    r.device ∈ (db.reservations.rows.filter p).map ReservationRow.device ↔ p r = true := by
  constructor
  · intro hmem
    obtain ⟨r', hr', hdevice⟩ := List.mem_map.mp hmem
    obtain ⟨hr', hp⟩ := List.mem_filter.mp hr'
    rwa [← Table.eq_of_key_eq (t := db.reservations) hr' h hdevice]
  · intro hp
    exact List.mem_map_of_mem (List.mem_filter.mpr ⟨h, hp⟩)

/-- **The join finds each staged reservation once**, with its worker. -/
theorem joinStaged_spec (db : Database) (p : ReservationRow → Bool) :
    (db.joinStaged ((db.reservations.rows.filter p).map ReservationRow.device)).map
        StagedRow.reservation = db.reservations.rows.filter p ∧
      ∀ x ∈ db.joinStaged ((db.reservations.rows.filter p).map ReservationRow.device),
        x.serial = x.reservation.device ∧ db.workerOf x.serial = some x.worker := by
  have hone : ∀ l : List ReservationRow, (∀ r ∈ l, r ∈ db.reservations) →
      (db.joinStaged (l.map ReservationRow.device)).map StagedRow.reservation = l ∧
        ∀ x ∈ db.joinStaged (l.map ReservationRow.device),
          x.serial = x.reservation.device ∧ db.workerOf x.serial = some x.worker := by
    intro l hl
    induction l with
    | nil => exact ⟨rfl, by simp [joinStaged]⟩
    | cons r l ih =>
      have hr := hl r List.mem_cons_self
      obtain ⟨d, w, h₁, h₂, h₃, hworker⟩ := exists_joined hr
      have hcons : db.joinStaged ((r :: l).map ReservationRow.device) =
          ⟨r.device, r, d, w⟩ :: db.joinStaged (l.map ReservationRow.device) := by
        rw [joinStaged, List.map_cons, List.flatMap_cons, h₁, List.flatMap_singleton, h₂,
          List.flatMap_singleton, h₃]
        rfl
      obtain ⟨hmap, hall⟩ := ih fun r' hr' => hl r' (List.mem_cons_of_mem _ hr')
      rw [hcons]
      refine ⟨by rw [List.map_cons, hmap], fun x hx => ?_⟩
      obtain rfl | hx := List.mem_cons.mp hx
      · exact ⟨rfl, hworker⟩
      · exact hall x hx
  exact hone _ fun r hr => (List.mem_filter.mp hr).1

end Database

end UsbipIce
