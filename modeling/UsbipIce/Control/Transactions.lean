import UsbipIce.Lib.ReadCommitted
import UsbipIce.Control.Database

/-!
# The database functions as transactions

The functions of `V1.3__ReservationProc.sql` that a client's calls go through,
and `updateDeviceStatus`, statement by statement, as transactions at READ
COMMITTED (`UsbipIce.postgres`). In `UsbipIce.Database` each of them is one step;
here others come in between.

A statement that updates devices or deletes reservations names them by their
serials only, those staged in the temporary table `res`. So it does not look
again at what the staging statement has looked at.
-/

namespace UsbipIce

open Lib Database ReadCommitted

/-! ### Statements and rows -/

/-- A call of one of the functions. -/
inductive Procedure where
  | makeReservations (amount : ℤ) (clientName : String) (now : ℤ)
  | endReservations (clientName : String) (serialIds : List String)
  | endAllReservations (clientName : String)
  | updateDeviceStatus (deviceserial : String) (dstate : DeviceState)
  deriving DecidableEq

/-- A statement after the first. -/
inductive Statement where
  /-- `UPDATE Device SET DeviceStatus = st WHERE SerialID IN …`. -/
  | updateDevice (serials : List String) (st : DeviceState)
  /-- `INSERT INTO Reservations …`. -/
  | insertReservations (rows : List ReservationRow)
  /-- `RETURN QUERY SELECT …` of the functions that end reservations. -/
  | returnEnded (serials : List String)
  /-- `DELETE FROM Reservations WHERE Device IN …`. -/
  | deleteReservations (serials : List String)
  deriving DecidableEq

/-- The write of a row. -/
inductive RowWrite where
  | setStatus (serial : String) (st : DeviceState)
  | insert (row : ReservationRow)
  | delete (row : ReservationRow)
  deriving DecidableEq

/-- A row of `Device`, or a key of `Reservations`. -/
inductive RowKey where
  | device (serial : String)
  | reservation (serial : String)
  deriving DecidableEq

/-- The row that is held. -/
def RowWrite.key : RowWrite → RowKey
  | .setStatus serial _ => .device serial
  | .insert row | .delete row => .reservation row.device

/-- What a function has so far: `res` of `makeReservations`, which it returns,
and the rows that the other functions return. -/
structure Call where
  procedure : Procedure
  res : List ReservedRow
  answer : List EndedRow
  deriving DecidableEq

/-- A call that has not begun. -/
def Procedure.call (procedure : Procedure) : Call := ⟨procedure, [], []⟩

namespace Database

/-- A row is added to `Reservations`. -/
def insertReservation (db : Database) (row : ReservationRow) : Database :=
  if hdevice : row.device ∈ db.device.keys then
    match h : db.reservations.insert? row with
    | none => db
    | some reservations =>
      { worker := db.worker
        device := db.device
        reservations := reservations
        deviceWorker := db.deviceWorker
        reservationsDevice := by
          intro r hr
          rw [Table.mem_def, Table.insert?_rows h] at hr
          rcases List.mem_append.mp hr with hr | hr
          · exact db.reservationsDevice r hr
          · rw [List.mem_singleton.mp hr]
            exact hdevice }
  else db

/-- A row is deleted from `Reservations`. -/
def deleteReservation (db : Database) (row : ReservationRow) : Database where
  worker := db.worker
  device := db.device
  reservations := db.reservations.delete fun r => r = row
  deviceWorker := db.deviceWorker
  reservationsDevice := fun r hr => db.reservationsDevice r (Table.mem_delete.mp hr).1

/-- A row is written. -/
def write (db : Database) : RowWrite → Database
  | .setStatus serial st => db.setStatus (fun s => s = serial) st
  | .insert row => db.insertReservation row
  | .delete row => db.deleteReservation row

end Database

/-! ### The functions -/

/-- The rows of a statement that deletes or updates are those there when it
starts. -/
def Statement.rows (db : Database) : Statement → List RowWrite
  | .updateDevice serials st =>
    (db.device.keys.filter (· ∈ serials)).map fun serial => .setStatus serial st
  | .insertReservations rows => rows.map .insert
  | .returnEnded _ => []
  | .deleteReservations serials =>
    (db.reservations.rows.filter fun r => r.device ∈ serials).map .delete

/-- A staging statement of the functions that end reservations, and what
follows. -/
def endStatements (staged : List String) : List Statement :=
  [.returnEnded staged, .deleteReservations staged, .updateDevice staged .awaitFlashDefault]

/-- The statements of `makeReservations` after the staging. -/
def reserveStatements (res : List ReservedRow) (clientName : String) (now : ℤ) : List Statement :=
  [.updateDevice (res.map ReservedRow.serial) .reserved,
    .insertReservations (newReservations res clientName now)]

/-- The first statement of a function; `res` is what a `LIMIT` picks. -/
def Call.first (db : Database) (c : Call) (res : List ReservedRow) :
    Option (Call × Option (List Statement)) :=
  match c.procedure with
  | .makeReservations amount clientName now =>
    -- a negative limit raises
    if amount < 0 then some (c, none)
    else if IsLimit amount.toNat db.available res then
      some ({ c with res := res }, some (reserveStatements res clientName now))
    else none
  | .endReservations clientName serialIds =>
    some (c, some (endStatements ((db.reservations.rows.filter fun r =>
      r.clientName = clientName ∧ r.device ∈ serialIds).map ReservationRow.device)))
  | .endAllReservations clientName =>
    some (c, some (endStatements ((db.reservations.rows.filter fun r =>
      r.clientName = clientName).map ReservationRow.device)))
  | .updateDeviceStatus deviceserial dstate =>
    if deviceserial ∈ db.device.keys then some (c, some [.updateDevice [deviceserial] dstate])
    else some (c, none)

/-- What a statement returns. -/
def Call.after (db : Database) (statement : Statement) (c : Call) : Call :=
  match statement with
  | .returnEnded serials => { c with answer := db.endedRows serials }
  | .updateDevice .. | .insertReservations _ | .deleteReservations _ => c

/-- What becomes of the write of a free row. -/
def RowWrite.check (db : Database) : RowWrite → Check
  | .setStatus .. => .passes
  -- the primary key
  | .insert row => if row.device ∈ db.reservations.keys then .fails else .passes
  | .delete row => if row ∈ db.reservations then .passes else .skipped

/-- **The functions as transactions.** -/
def postgres : Schema Database Statement RowWrite RowKey Call (List ReservedRow) where
  key := RowWrite.key
  apply := Database.write
  first := Call.first
  rows := Statement.rows
  answer := Call.after
  check := RowWrite.check

/-- The database, with calls on it. -/
abbrev Postgres := Server Database Statement RowWrite Call

/-- A call as a transaction. -/
abbrev CallTransaction := Transaction Statement RowWrite Call

/-- The calls are about to begin. -/
def Postgres.start (db : Database) (procedures : List Procedure) : Postgres :=
  Server.start db (procedures.map Procedure.call)

/-! ### What a write does to a row -/

@[simp] theorem status_insertReservation (db : Database) (row : ReservationRow) (serial : String) :
    (db.insertReservation row).status serial = db.status serial := by
  rw [insertReservation]
  split
  · split <;> rfl
  · rfl

/-- **What a row write does to a status.** -/
theorem status_write (db : Database) (w : RowWrite) (serial : String) :
    (db.write w).status serial = match w with
      | .setStatus serial' st =>
        if serial = serial' then (db.status serial).map fun _ => st else db.status serial
      | .insert _ | .delete _ => db.status serial := by
  cases w with
  | setStatus serial' st =>
    show (db.setStatus _ st).status serial = _
    rw [status_setStatus]
    simp only [decide_eq_true_eq]
  | insert row => exact status_insertReservation db row serial
  | delete row => rfl

/-- A status that is written to another row stays. -/
@[simp] theorem status_write_of_ne {db : Database} {w : RowWrite} {serial : String}
    (h : w.key ≠ .device serial) : (db.write w).status serial = db.status serial := by
  rw [status_write]
  cases w with
  | setStatus serial' st =>
    refine if_neg ?_
    rintro rfl
    exact h rfl
  | insert row => rfl
  | delete row => rfl

/-! ### What `makeReservations` works on -/

/-- The call is one of `makeReservations`. -/
def Procedure.Reserves : Procedure → Prop
  | .makeReservations .. => True
  | .endReservations .. | .endAllReservations _ | .updateDeviceStatus .. => False

instance : DecidablePred Procedure.Reserves := fun procedure => by
  cases procedure <;> unfold Procedure.Reserves <;> infer_instance

theorem Procedure.Reserves.exists_eq {procedure : Procedure} (h : procedure.Reserves) :
    ∃ amount clientName now, procedure = .makeReservations amount clientName now := by
  cases procedure with
  | makeReservations amount clientName now => exact ⟨amount, clientName, now, rfl⟩
  | endReservations | endAllReservations | updateDeviceStatus => cases h

/-- How many devices a call of `makeReservations` asks for. -/
def Procedure.amount : Procedure → ℤ
  | .makeReservations amount _ _ => amount
  | .endReservations .. | .endAllReservations _ | .updateDeviceStatus .. => 0

/-- The device whose status is written. -/
def RowWrite.updated : RowWrite → List String
  | .setStatus serial _ => [serial]
  | .insert _ | .delete _ => []

/-- The devices whose status is updated. -/
def Statement.updated : Statement → List String
  | .updateDevice serials _ => serials
  | .insertReservations _ | .returnEnded _ | .deleteReservations _ => []

/-- The device whose reservation is written. -/
def RowWrite.booked : RowWrite → List String
  | .setStatus .. => []
  | .insert row | .delete row => [row.device]

/-- The devices whose reservations are written. -/
def Statement.booked : Statement → List String
  | .updateDevice .. | .returnEnded _ => []
  | .insertReservations rows => rows.map ReservationRow.device
  | .deleteReservations serials => serials

theorem RowWrite.mem_updated_of_key {w : RowWrite} {serial : String} (h : w.key = .device serial) :
    serial ∈ w.updated := by
  cases w with
  | setStatus serial' st =>
    obtain rfl := RowKey.device.inj h
    exact List.mem_cons_self
  | insert row => cases h
  | delete row => cases h

theorem RowWrite.mem_booked_of_key {w : RowWrite} {serial : String}
    (h : w.key = .reservation serial) :
    serial ∈ w.booked := by
  cases w with
  | setStatus serial' st => cases h
  | insert row =>
    obtain rfl := RowKey.reservation.inj h
    exact List.mem_cons_self
  | delete row =>
    obtain rfl := RowKey.reservation.inj h
    exact List.mem_cons_self

/-- A statement updates rows of devices that it names, each once. -/
theorem updated_rows (db : Database) (statement : Statement) :
    ((statement.rows db).flatMap RowWrite.updated).Subperm statement.updated := by
  have hnil : ∀ {α : Type} (l : List α) (f : α → RowWrite), (∀ x, (f x).updated = []) →
      (l.map f).flatMap RowWrite.updated = [] := by
    intro α l f hf
    rw [List.flatMap_map, List.flatMap_eq_nil_iff]
    exact fun x _ => hf x
  cases statement with
  | updateDevice serials st =>
    rw [Statement.rows, List.flatMap_map]
    simp only [RowWrite.updated, List.flatMap_singleton']
    refine List.subperm_of_subset (db.device.nodup.filter _) fun serial hserial => ?_
    exact of_decide_eq_true (List.mem_filter.mp hserial).2
  | insertReservations rows =>
    rw [Statement.rows, hnil rows _ fun _ => rfl]
    exact List.nil_subperm
  | returnEnded serials => exact List.nil_subperm
  | deleteReservations serials =>
    rw [Statement.rows, hnil _ _ fun _ => rfl]
    exact List.nil_subperm

/-- A statement writes reservations of devices that it names, each once. -/
theorem booked_rows (db : Database) (statement : Statement) :
    ((statement.rows db).flatMap RowWrite.booked).Subperm statement.booked := by
  cases statement with
  | updateDevice serials st =>
    have hnil : ((Statement.updateDevice serials st).rows db).flatMap RowWrite.booked = [] := by
      rw [Statement.rows, List.flatMap_map, List.flatMap_eq_nil_iff]
      exact fun _ _ => rfl
    rw [hnil]
    exact List.nil_subperm
  | insertReservations rows =>
    rw [Statement.rows, List.flatMap_map, Statement.booked, List.map_eq_flatMap]
    exact List.Subperm.refl _
  | returnEnded serials => exact List.nil_subperm
  | deleteReservations serials =>
    rw [Statement.rows, List.flatMap_map]
    simp only [RowWrite.booked, Statement.booked, ← List.map_eq_flatMap]
    refine List.subperm_of_subset (db.reservations.nodup.sublist (List.filter_sublist.map _))
      fun serial hserial => ?_
    obtain ⟨r, hr, rfl⟩ := List.mem_map.mp hserial
    exact of_decide_eq_true (List.mem_filter.mp hr).2

/-! ### What a call keeps -/

/-- **How `makeReservations` begins**: it raises, or it stages what a `LIMIT` of
the available devices picks. -/
theorem first_of_reserves {db : Database} {c c' : Call} {res : List ReservedRow}
    {statements : Option (List Statement)} (hreserves : c.procedure.Reserves)
    (h : c.first db res = some (c', statements)) :
    c.procedure.amount < 0 ∧ c' = c ∧ statements = none ∨
      0 ≤ c.procedure.amount ∧ IsLimit c.procedure.amount.toNat db.available res ∧
        c' = { c with res := res } ∧
        ∃ clientName now, statements = some (reserveStatements res clientName now) := by
  obtain ⟨amount, clientName, now, hprocedure⟩ := hreserves.exists_eq
  rw [Call.first.eq_def, hprocedure] at h
  rw [hprocedure]
  simp only at h
  split at h
  · rename_i hneg
    obtain ⟨rfl, rfl⟩ := Prod.mk.inj (Option.some.inj h)
    exact Or.inl ⟨hneg, rfl, rfl⟩
  · rename_i hneg
    split at h
    · rename_i hlimit
      obtain ⟨rfl, rfl⟩ := Prod.mk.inj (Option.some.inj h)
      exact Or.inr ⟨not_lt.mp hneg, hlimit, rfl, clientName, now, rfl⟩
    · cases h

/-- **What is left of a call**: its function, and what it has staged, unless a
`LIMIT` of the available devices picks that now. -/
structure Call.Keeps (c c' : Call) : Prop where
  procedure : c'.procedure = c.procedure
  res : c'.res = c.res ∨ ∃ (db : Database) (n : ℕ), IsLimit n db.available c'.res

theorem keeps_of_first {db : Database} {c c' : Call} {res : List ReservedRow}
    {statements : Option (List Statement)} (h : c.first db res = some (c', statements)) :
    c.Keeps c' := by
  rw [Call.first] at h
  split at h
  · split at h
    · obtain ⟨rfl, -⟩ := Prod.mk.inj (Option.some.inj h)
      exact ⟨rfl, Or.inl rfl⟩
    · split at h
      · rename_i hlimit
        obtain ⟨rfl, -⟩ := Prod.mk.inj (Option.some.inj h)
        exact ⟨rfl, Or.inr ⟨db, _, hlimit⟩⟩
      · cases h
  · obtain ⟨rfl, -⟩ := Prod.mk.inj (Option.some.inj h)
    exact ⟨rfl, Or.inl rfl⟩
  · obtain ⟨rfl, -⟩ := Prod.mk.inj (Option.some.inj h)
    exact ⟨rfl, Or.inl rfl⟩
  · split at h
    all_goals
      obtain ⟨rfl, -⟩ := Prod.mk.inj (Option.some.inj h)
      exact ⟨rfl, Or.inl rfl⟩

@[simp] theorem procedure_after (db : Database) (statement : Statement) (c : Call) :
    (c.after db statement).procedure = c.procedure := by
  cases statement <;> rfl

@[simp] theorem res_after (db : Database) (statement : Statement) (c : Call) :
    (c.after db statement).res = c.res := by
  cases statement <;> rfl

theorem keeps_of_rule {s s' : Postgres} {t : ℕ} {tx : CallTransaction}
    {i : ServerInput (List ReservedRow)} (h : postgres.Rule s t tx i s') :
    ∃ tx', s'.transactions = s.transactions.set t tx' ∧ tx.data.Keeps tx'.data := by
  cases h with
  | raises hstage hfirst => exact ⟨_, rfl, keeps_of_first hfirst⟩
  | first hstage hfirst => exact ⟨_, rfl, keeps_of_first hfirst⟩
  | statement hstage => exact ⟨_, rfl, procedure_after _ _ _, Or.inl (res_after _ _ _)⟩
  | waits | fails | skips | passes | commits | killed => exact ⟨_, rfl, rfl, Or.inl rfl⟩

/-- Before its first write a transaction sees what is committed. -/
@[simp] theorem view_of_nil {tx : CallTransaction} (db : Database) (hnil : tx.writes = []) :
    postgres.view db tx = db := by
  rw [Schema.view, hnil, List.foldl_nil]

end UsbipIce
