import UsbipIce.Control.Expiry
import UsbipIce.Control.Statements

/-!
# Reserving, ending and extending

What the three requests of a client do to the tables, each alone, with all that
they leave alone: `makeReservations` (`UsbipIce.Database.makeReservations_alone`),
`Control.end` and `Control.endAll` with the messages they send
(`UsbipIce.Control.end_spec`), and `Control.extend` and `Control.extendAll`
(`UsbipIce.Control.extendsReservations_iff`).

The last two hand back what `Database.execute` returns, a list of tuples, where
the other functions return serials. The tables are as they should be; the answer
is so only where it is empty.
-/

namespace UsbipIce

open Lib

namespace Database

/-! ### Reserving -/

/-- A candidate comes with the host and the port of its own worker. -/
theorem worker_of_mem_available {db : Database} {r : ReservedRow} (h : r ∈ db.available) :
    ∃ d ∈ db.device, d.serialId = r.serial ∧ d.deviceStatus = .available ∧
      ∃ w ∈ db.worker, w.workerName = d.worker ∧ r.ip = w.host ∧ r.serverport = w.serverPort := by
  obtain ⟨d, hd, hr⟩ := List.mem_flatMap.mp h
  obtain ⟨w, hw, rfl⟩ := List.mem_map.mp hr
  obtain ⟨hd, hst⟩ := List.mem_filter.mp hd
  obtain ⟨hw, hk⟩ := List.mem_filter.mp hw
  exact ⟨d, hd, rfl, of_decide_eq_true hst, w, hw, of_decide_eq_true hk, rfl, rfl⟩

/-- **Reserving, alone.** Where no available device has a reservation, any choice
of the `LIMIT` goes through: as many rows as asked for or as there are available
devices, with different serials, each an available device with its own worker;
exactly these devices become reserved, each with one new reservation, for one
hour; every other row of the tables stays. -/
theorem makeReservations_alone {db : Database} {amount : ℤ} (now : ℤ) (clientName : String)
    (hamount : 0 ≤ amount) (hfree : ∀ s, db.status s = some .available → ¬db.IsReserved s) :
    (∃ res, IsLimit amount.toNat db.available res) ∧
      ∀ res, IsLimit amount.toNat db.available res →
        ∃ db', db.makeReservations amount clientName now res = some (db', res) ∧
          (res.length : ℤ) = min amount db.countAvailable ∧
          (res.map ReservedRow.serial).Nodup ∧
          (∀ r ∈ res, ∃ d ∈ db.device, d.serialId = r.serial ∧ d.deviceStatus = .available ∧
            ∃ w ∈ db.worker, w.workerName = d.worker ∧ r.ip = w.host ∧
              r.serverport = w.serverPort) ∧
          db'.worker.rows = db.worker.rows ∧
          db'.device.rows = db.device.rows.map (fun d =>
            if d.serialId ∈ res.map ReservedRow.serial then { d with deviceStatus := .reserved }
            else d) ∧
          db'.reservations.rows =
            db.reservations.rows ++ res.map fun r => ⟨r.serial, clientName, now + 3600⟩ := by
  refine ⟨⟨_, isLimit_take _ _⟩, fun res hlim => ?_⟩
  have hsome : (db.makeReservations amount clientName now res).isSome :=
    makeReservations_isSome hamount hlim hfree
  obtain ⟨⟨db', rows⟩, hmake⟩ := Option.isSome_iff_exists.mp hsome
  obtain ⟨rfl, -, hworker, hdevice, hins⟩ := makeReservations_rows hmake
  refine ⟨db', hmake, ?_, hlim.nodup_map db.nodup_available_serials,
    fun r hr => worker_of_mem_available (hlim.mem hr), by rw [hworker], ?_, ?_⟩
  · rw [hlim.2, length_available]
    omega
  · rw [hdevice]
    exact List.map_congr_left fun d _ => by simp
  · rw [Table.insertAll?_rows hins, newReservations]

/-- A device to reserve, and one that is broken. -/
def oneFree : Database where
  worker := ⟨[⟨"lab", "10.0.0.1", 8081, 0⟩], by decide⟩
  device := ⟨[⟨"A", "lab", .available⟩, ⟨"B", "lab", .broken⟩], by decide⟩
  reservations := ∅
  deviceWorker := by decide
  reservationsDevice := by decide

/-- Three devices are asked for, and the one there is is reserved. -/
theorem oneFree_reserved :
    ∃ db', oneFree.makeReservations 3 "client" 100 [⟨"A", "10.0.0.1", 8081⟩] =
        some (db', [⟨"A", "10.0.0.1", 8081⟩]) ∧
      db'.device.rows = [⟨"A", "lab", .reserved⟩, ⟨"B", "lab", .broken⟩] ∧
      db'.reservations.rows = [⟨"A", "client", 3700⟩] := by
  have hfree : ∀ s, oneFree.status s = some .available → ¬oneFree.IsReserved s :=
    fun s _ => List.not_mem_nil
  obtain ⟨db', hmake, -, -, -, -, hdevice, hreservations⟩ :=
    (makeReservations_alone 100 "client" (by decide : (0 : ℤ) ≤ 3) hfree).2
      [⟨"A", "10.0.0.1", 8081⟩] (by decide)
  exact ⟨db', hmake, hdevice, hreservations⟩

/-! ### What a client holds -/

/-- The reservations of a client among the listed serials. -/
def heldOf (db : Database) (clientName : String) (serialIds : List String) : List ReservationRow :=
  db.reservations.rows.filter fun r => r.clientName = clientName ∧ r.device ∈ serialIds

/-- The serials a list names are all those a client holds. -/
def HoldsAll (db : Database) (clientName : String) (serials : List String) : Prop :=
  ∀ s, s ∈ serials ↔ ∃ r ∈ db.reservations, r.device = s ∧ r.clientName = clientName

theorem mem_map_device_heldOf {db : Database} {clientName s : String} {serialIds : List String} :
    s ∈ (db.heldOf clientName serialIds).map ReservationRow.device ↔
      s ∈ serialIds ∧ ∃ r ∈ db.reservations, r.device = s ∧ r.clientName = clientName := by
  simp only [heldOf, List.mem_map, List.mem_filter, decide_eq_true_eq]
  constructor
  · rintro ⟨r, ⟨hr, hc, hmem⟩, rfl⟩
    exact ⟨hmem, r, hr, rfl, hc⟩
  · rintro ⟨hmem, r, hr, rfl, hc⟩
    exact ⟨r, ⟨hr, hc, hmem⟩, rfl⟩

/-- Listing all that a client holds selects all its reservations. -/
theorem HoldsAll.filter_eq {db : Database} {clientName : String} {serials : List String}
    (h : db.HoldsAll clientName serials) :
    (db.reservations.rows.filter fun r => r.clientName = clientName) =
      db.heldOf clientName serials := by
  refine List.filter_congr fun r hr => decide_eq_decide.mpr ?_
  exact ⟨fun hc => ⟨hc, (h r.device).mpr ⟨r, hr, rfl, hc⟩⟩, And.left⟩

/-- The worker a device is attached to is that of its row. -/
theorem hosts_of_workerOf {db : Database} {serial : String} {w : WorkerRow}
    (h : db.workerOf serial = some w) :
    w ∈ db.worker ∧ ∃ d ∈ db.device, d.serialId = serial ∧ d.worker = w.workerName := by
  obtain ⟨d, hd, hw⟩ := Option.bind_eq_some_iff.mp h
  obtain ⟨hdmem, hdk⟩ := Table.find?_eq_some.mp hd
  obtain ⟨hwmem, hwk⟩ := Table.find?_eq_some.mp hw
  exact ⟨hwmem, d, hdmem, hdk, hwk.symm⟩

end Database

/-! ### Ending -/

open Database

/-- `Control.end`: the tables it leaves, what it sends and what it returns. -/
def Control.end (db : Database) (clientId : String) (serials : List String) :
    Database × List Notification × List String :=
  let data := db.endReservations clientId serials
  (data.1, endMessages clientId data.2, data.2.map EndedRow.serial)

/-- `Control.endAll`. -/
def Control.endAll (db : Database) (clientId : String) :
    Database × List Notification × List String :=
  let data := db.endAllReservations clientId
  (data.1, endMessages clientId data.2, data.2.map EndedRow.serial)

namespace Control

/-- The rows returned for the staged serials are those of the join. -/
theorem endedRows_eq (db : Database) (res : List String) :
    db.endedRows res =
      (db.joinStaged res).map fun x => ⟨x.serial, x.worker.host, x.worker.serverPort⟩ := by
  simp only [endedRows, joinStaged, List.map_flatMap, List.map_map, Function.comp_def]

/-- The reservations that are staged are those of the client that are listed. -/
theorem mem_staged_iff {db : Database} {clientId : String} {serials : List String}
    {r : ReservationRow} (hr : r ∈ db.reservations) :
    r.device ∈ (db.heldOf clientId serials).map ReservationRow.device ↔
      r.clientName = clientId ∧ r.device ∈ serials :=
  (mem_map_device_filter (p := fun r => decide (r.clientName = clientId ∧ r.device ∈ serials))
    hr).trans decide_eq_true_iff

/-- **What ending does to the tables.** -/
theorem end_tables (db : Database) (clientId : String) (serials : List String) :
    (Control.end db clientId serials).1.worker.rows = db.worker.rows ∧
      (Control.end db clientId serials).1.device.rows = db.device.rows.map (fun d =>
        if d.serialId ∈ (db.heldOf clientId serials).map ReservationRow.device then
          { d with deviceStatus := .awaitFlashDefault } else d) ∧
      (Control.end db clientId serials).1.reservations.rows = (db.reservations.rows.filter fun r =>
        ¬(r.clientName = clientId ∧ r.device ∈ serials)) := by
  have hresult : (Control.end db clientId serials).1 =
      (db.endStaged ((db.heldOf clientId serials).map ReservationRow.device)).1 := rfl
  rw [hresult]
  refine ⟨rfl, List.map_congr_left fun d _ => by simp, List.filter_congr fun r hr => ?_⟩
  rw [← decide_not, decide_eq_decide]
  exact not_congr (mem_staged_iff hr)

/-- The reservations of other clients, and their devices, are left as they are. -/
theorem end_others {db : Database} {clientId : String} (serials : List String)
    {r : ReservationRow} (hr : r ∈ db.reservations) (hne : r.clientName ≠ clientId) :
    r ∈ (Control.end db clientId serials).1.reservations ∧
      ∀ d ∈ db.device, d.serialId = r.device → d ∈ (Control.end db clientId serials).1.device := by
  obtain ⟨-, hdevice, hreservations⟩ := end_tables db clientId serials
  refine ⟨?_, fun d hd hk => ?_⟩
  · rw [Table.mem_def, hreservations, List.mem_filter]
    exact ⟨hr, decide_eq_true fun h => hne h.1⟩
  · rw [Table.mem_def, hdevice]
    refine List.mem_map.mpr ⟨d, hd, if_neg fun hmem => ?_⟩
    rw [hk] at hmem
    exact hne ((mem_staged_iff hr).mp hmem).1

/-- **What ending returns**: a row for each reservation, with its worker. -/
theorem exists_ended_rows (db : Database) (clientId : String) (serials : List String) :
    ∃ rows : List StagedRow, rows.map StagedRow.reservation = db.heldOf clientId serials ∧
      (∀ x ∈ rows, x.serial = x.reservation.device ∧ db.workerOf x.serial = some x.worker) ∧
      (db.endReservations clientId serials).2 =
        rows.map fun x => ⟨x.serial, x.worker.host, x.worker.serverPort⟩ := by
  obtain ⟨hmap, hall⟩ :=
    db.joinStaged_spec fun r => r.clientName = clientId ∧ r.device ∈ serials
  exact ⟨_, hmap, hall, endedRows_eq db _⟩

@[simp] theorem end_serials (db : Database) (clientId : String) (serials : List String) :
    (Control.end db clientId serials).2.2 =
      (db.heldOf clientId serials).map ReservationRow.device := by
  obtain ⟨rows, hmap, hall, hrows⟩ := exists_ended_rows db clientId serials
  rw [Control.end, ← hmap, List.map_map, hrows, List.map_map]
  exact List.map_congr_left fun x hx => (hall x hx).1

/-- **What ending sends**: an event and a request for each reservation. -/
theorem end_messages (db : Database) (clientId : String) (serials : List String) :
    ∃ hosts : List (ReservationRow × WorkerRow),
      hosts.map Prod.fst = db.heldOf clientId serials ∧
      (∀ x ∈ hosts, db.workerOf x.1.device = some x.2) ∧
      (Control.end db clientId serials).2.1 = hosts.flatMap fun x =>
        [.event clientId x.1.device "reservation end",
          .get ("http://" ++ x.2.host ++ ":" ++ toString x.2.serverPort ++ "/unreserve")
            x.1.device] := by
  obtain ⟨rows, hmap, hall, hrows⟩ := exists_ended_rows db clientId serials
  refine ⟨rows.map fun x => (x.reservation, x.worker), ?_, fun x hx => ?_, ?_⟩
  · rw [← hmap, List.map_map]
    rfl
  · obtain ⟨row, hrow, rfl⟩ := List.mem_map.mp hx
    obtain ⟨hserial, hof⟩ := hall row hrow
    rw [← hserial]
    exact hof
  · rw [Control.end, hrows, endMessages, List.flatMap_map, List.flatMap_map]
    refine List.flatMap_congr fun x hx => ?_
    rw [notifyEnd, sendDeviceReservationEnd, workerUrl, (hall x hx).1]

/-- **Ending, and telling of it.** Exactly the client's reservations of listed serials
are deleted, and their devices are to be flashed home; for each of them the client gets
one event, and the worker whose row the device refers to one request at its own host
and port; and their serials are returned, each once. Ending all is ending all that the
client holds. -/
theorem end_spec (db : Database) (clientId : String) (serials : List String) :
    let ended := db.heldOf clientId serials
    let result := Control.end db clientId serials
    result.1.worker.rows = db.worker.rows ∧
      result.1.device.rows = db.device.rows.map (fun d =>
        if d.serialId ∈ ended.map ReservationRow.device then
          { d with deviceStatus := .awaitFlashDefault } else d) ∧
      result.1.reservations.rows = (db.reservations.rows.filter fun r =>
        ¬(r.clientName = clientId ∧ r.device ∈ serials)) ∧
      (∀ r ∈ db.reservations, r.clientName ≠ clientId → r ∈ result.1.reservations ∧
        ∀ d ∈ db.device, d.serialId = r.device → d ∈ result.1.device) ∧
      (∃ hosts : List (ReservationRow × WorkerRow), hosts.map Prod.fst = ended ∧
        (∀ x ∈ hosts, x.2 ∈ db.worker ∧
          ∃ d ∈ db.device, d.serialId = x.1.device ∧ d.worker = x.2.workerName) ∧
        result.2.1.Perm (hosts.flatMap fun x =>
          [.event clientId x.1.device "reservation end",
            .get ("http://" ++ x.2.host ++ ":" ++ toString x.2.serverPort ++ "/unreserve")
              x.1.device])) ∧
      result.2.2.Nodup ∧
      (∀ s, s ∈ result.2.2 ↔
        s ∈ serials ∧ ∃ r ∈ db.reservations, r.device = s ∧ r.clientName = clientId) ∧
      ∀ held, db.HoldsAll clientId held →
        Control.endAll db clientId = Control.end db clientId held := by
  intro ended result
  obtain ⟨hworker, hdevice, hreservations⟩ := end_tables db clientId serials
  obtain ⟨hosts, hmap, hof, hmessages⟩ := end_messages db clientId serials
  refine ⟨hworker, hdevice, hreservations, fun r hr hne => end_others serials hr hne,
    ⟨hosts, hmap, fun x hx => hosts_of_workerOf (hof x hx), List.Perm.of_eq hmessages⟩, ?_,
    fun s => ?_, fun held hheld => ?_⟩
  · rw [end_serials]
    exact (db.staged_spec _).2
  · rw [end_serials]
    exact mem_map_device_heldOf
  · rw [Control.endAll, Control.end, endAllReservations, endReservations, hheld.filter_eq, heldOf]

/-- Two devices of a client on two workers, and one of another client. -/
def twoClients : Database where
  worker := ⟨[⟨"lab", "10.0.0.1", 8081, 0⟩, ⟨"bench", "10.0.0.2", 8082, 0⟩], by decide⟩
  device := ⟨[⟨"A", "lab", .reserved⟩, ⟨"B", "bench", .reserved⟩, ⟨"C", "lab", .reserved⟩],
    by decide⟩
  reservations := ⟨[⟨"A", "client", 3000⟩, ⟨"B", "client", 3000⟩, ⟨"C", "other", 3000⟩],
    by decide⟩
  deviceWorker := by decide
  reservationsDevice := by decide

/-- A client ends two reservations, one of them listed twice, and names a device of
another client and one that is unknown. -/
theorem twoClients_ended :
    (Control.end twoClients "client" ["B", "C", "A", "D", "B"]).1.reservations.rows =
        [⟨"C", "other", 3000⟩] ∧
      (Control.end twoClients "client" ["B", "C", "A", "D", "B"]).2.1.Perm
        [.event "client" "A" "reservation end", .get "http://10.0.0.1:8081/unreserve" "A",
          .event "client" "B" "reservation end", .get "http://10.0.0.2:8082/unreserve" "B"] := by
  obtain ⟨-, -, hreservations, -, ⟨hosts, hmap, hall, hperm⟩, -⟩ :=
    end_spec twoClients "client" ["B", "C", "A", "D", "B"]
  have hfst : hosts.map Prod.fst = [⟨"A", "client", 3000⟩, ⟨"B", "client", 3000⟩] := hmap
  obtain ⟨x, l, rfl, hx, hl⟩ := List.map_eq_cons_iff.mp hfst
  obtain ⟨y, rfl, hy⟩ := List.map_eq_singleton_iff.mp hl
  have hlab : ∀ w ∈ twoClients.worker.rows, ∀ d ∈ twoClients.device.rows, d.serialId = "A" →
      d.worker = w.workerName → w = ⟨"lab", "10.0.0.1", 8081, 0⟩ := by decide
  have hbench : ∀ w ∈ twoClients.worker.rows, ∀ d ∈ twoClients.device.rows, d.serialId = "B" →
      d.worker = w.workerName → w = ⟨"bench", "10.0.0.2", 8082, 0⟩ := by decide
  obtain ⟨hw, d, hd, hk, hdw⟩ := hall x List.mem_cons_self
  obtain ⟨hw', d', hd', hk', hdw'⟩ := hall y (List.mem_cons_of_mem _ List.mem_cons_self)
  obtain rfl : x = (⟨"A", "client", 3000⟩, ⟨"lab", "10.0.0.1", 8081, 0⟩) :=
    Prod.ext hx (hlab _ hw _ hd (hk.trans (congrArg ReservationRow.device hx)) hdw)
  obtain rfl : y = (⟨"B", "client", 3000⟩, ⟨"bench", "10.0.0.2", 8082, 0⟩) :=
    Prod.ext hy (hbench _ hw' _ hd' (hk'.trans (congrArg ReservationRow.device hy)) hdw')
  exact ⟨hreservations, hperm.trans (List.Perm.of_eq (by decide))⟩

/-! ### Extending -/

/-- An entry of a list that `Database.execute` returns, as against a string. -/
inductive Item where
  | str (s : String)
  | tuple (row : List SqlValue)
  deriving DecidableEq, Repr

end Control

namespace Database

/-- `UPDATE Reservations SET Until = … WHERE p RETURNING Device`. -/
def extendWhere (p : ReservationRow → Bool) (now : ℤ) : Function := fun db => some
  ({ worker := db.worker
     device := db.device
     reservations := db.reservations.update p (fun r => { r with till := now + 3600 }) fun _ => rfl
     deviceWorker := db.deviceWorker
     reservationsDevice := by
       intro r hr
       obtain ⟨r', hr', rfl⟩ := Table.mem_update.mp hr
       have h := db.reservationsDevice r' hr'
       split <;> exact h },
    (db.reservations.rows.filter p).map fun r => [.text r.device])

/-- `extendReservations`. -/
def extendReservations (clientName : String) (serialIds : List String) (now : ℤ) : Function :=
  extendWhere (fun r => r.device ∈ serialIds ∧ r.clientName = clientName) now

/-- `extendAllReservations`. -/
def extendAllReservations (clientName : String) (now : ℤ) : Function :=
  extendWhere (fun r => r.clientName = clientName) now

end Database

namespace Control

/-- What `Database.execute` returns, `none` for `False`. -/
def executeItems (db : Database) (f : Function) : Database × Option (List Item) :=
  ((db.execute f).1, (db.execute f).2.map fun rows => rows.map Item.tuple)

/-- `Control.extend`, which returns what `ControlDatabase.extend` does. -/
def extend (db : Database) (clientId : String) (serials : List String) (now : ℤ) :
    Database × Option (List Item) :=
  executeItems db (extendReservations clientId serials now)

/-- `Control.extendAll`. -/
def extendAll (db : Database) (clientId : String) (now : ℤ) : Database × Option (List Item) :=
  executeItems db (extendAllReservations clientId now)

/-- **What extending is for**: exactly the client's reservations of listed
serials last one hour from now on, nothing else changes, and their serials are
returned, as strings and each once; and extending all is extending all that the
client holds. -/
def ExtendsReservations (db : Database) (clientId : String) (serials : List String) (now : ℤ) :
    Prop :=
  (extend db clientId serials now).1.worker.rows = db.worker.rows ∧
    (extend db clientId serials now).1.device.rows = db.device.rows ∧
    (extend db clientId serials now).1.reservations.rows = db.reservations.rows.map (fun r =>
      if r.clientName = clientId ∧ r.device ∈ serials then { r with till := now + 3600 } else r) ∧
    (∃ out : List String, (extend db clientId serials now).2 = some (out.map Item.str) ∧ out.Nodup ∧
      ∀ s, s ∈ out ↔
        s ∈ serials ∧ ∃ r ∈ db.reservations, r.device = s ∧ r.clientName = clientId) ∧
    ∀ held, db.HoldsAll clientId held → extendAll db clientId now = extend db clientId held now

/-- What `extend` returns: a tuple for each reservation extended. -/
@[simp] theorem extend_items (db : Database) (clientId : String) (serials : List String) (now : ℤ) :
    (extend db clientId serials now).2 = some ((db.reservations.rows.filter fun r =>
      r.device ∈ serials ∧ r.clientName = clientId).map fun r => .tuple [.text r.device]) := by
  exact congrArg some List.map_map

/-- **What extending does to the tables**, and that extending all is extending all
that is held. -/
theorem extend_tables (db : Database) (clientId : String) (serials : List String) (now : ℤ) :
    (extend db clientId serials now).1.worker.rows = db.worker.rows ∧
      (extend db clientId serials now).1.device.rows = db.device.rows ∧
      (extend db clientId serials now).1.reservations.rows = db.reservations.rows.map (fun r =>
        if r.clientName = clientId ∧ r.device ∈ serials then { r with till := now + 3600 } else r) ∧
      ∀ held, db.HoldsAll clientId held →
        extendAll db clientId now = extend db clientId held now := by
  refine ⟨rfl, rfl, ?_, fun held hheld => ?_⟩
  · exact List.map_congr_left fun r _ => if_congr (decide_eq_true_iff.trans and_comm) rfl rfl
  · -- the two statements select the same reservations
    have hsame : ∀ r ∈ db.reservations.rows, decide (r.clientName = clientId) =
        decide (r.device ∈ held ∧ r.clientName = clientId) := by
      intro r hr
      rw [decide_eq_decide]
      exact ⟨fun hc => ⟨(hheld r.device).mpr ⟨r, hr, rfl, hc⟩, hc⟩, And.right⟩
    have hrows : (extendAll db clientId now).1.reservations.rows =
        (extend db clientId held now).1.reservations.rows :=
      List.map_congr_left fun r hr => if_congr (Bool.eq_iff_iff.mp (hsame r hr)) rfl rfl
    refine Prod.ext (eq_of_rows rfl rfl hrows) ?_
    show some _ = some _
    rw [List.filter_congr hsame]

/-- **Extending answers as it should only with nothing**: the tables are always
as they should be, and extending all is always extending what is held; but the
answer is a list of strings exactly where the client holds none of the listed
serials. -/
theorem extendsReservations_iff (db : Database) (clientId : String) (serials : List String)
    (now : ℤ) :
    ExtendsReservations db clientId serials now ↔
      ∀ r ∈ db.reservations, r.clientName = clientId → r.device ∉ serials := by
  obtain ⟨hworker, hdevice, hreservations, hall⟩ := extend_tables db clientId serials now
  have hitems := extend_items db clientId serials now
  constructor
  · rintro ⟨-, -, -, ⟨out, hout, -, -⟩, -⟩ r hr hc hmem
    rw [hitems] at hout
    have htuple : Item.tuple [.text r.device] ∈ out.map Item.str := by
      rw [← Option.some.inj hout]
      exact List.mem_map_of_mem (List.mem_filter.mpr ⟨hr, decide_eq_true ⟨hmem, hc⟩⟩)
    obtain ⟨s, -, hs⟩ := List.mem_map.mp htuple
    cases hs
  · intro hnone
    refine ⟨hworker, hdevice, hreservations, ⟨[], ?_, List.nodup_nil, fun s => ?_⟩, hall⟩
    · rw [hitems, List.filter_eq_nil_iff.mpr fun r hr h => ?_]
      · rfl
      · obtain ⟨hmem, hc⟩ := of_decide_eq_true h
        exact hnone r hr hc hmem
    · refine iff_of_false List.not_mem_nil ?_
      rintro ⟨hs, r, hr, rfl, hc⟩
      exact hnone r hr hc hs

/-- A device reserved by a client. -/
def oneReserved : Database where
  worker := ⟨[⟨"w", "10.0.0.1", 8081, 5⟩], by decide⟩
  device := ⟨[⟨"A", "w", .reserved⟩], by decide⟩
  reservations := ⟨[⟨"A", "client", 3000⟩], by decide⟩
  deviceWorker := by decide
  reservationsDevice := by decide

/-- **A reservation is extended and a tuple comes back**, while ending it returns
its serial. -/
theorem extend_returns_tuples :
    (extend oneReserved "client" ["A"] 100).2 = some [.tuple [.text "A"]] ∧
      (Control.end oneReserved "client" ["A"]).2.2 = ["A"] ∧
      ¬ExtendsReservations oneReserved "client" ["A"] 100 := by
  have hitems : (extend oneReserved "client" ["A"] 100).2 = some [.tuple [.text "A"]] := rfl
  refine ⟨hitems, rfl, ?_⟩
  rintro ⟨-, -, -, ⟨out, hout, -, -⟩, -⟩
  rw [hitems] at hout
  cases out with
  | nil => cases hout
  | cons s out => cases (List.cons.inj (Option.some.inj hout)).1

end Control

end UsbipIce
