import UsbipIce.Lib.RowHistory
import UsbipIce.Control.Overwrites

/-!
# Who is granted a device

The calls of clients run side by side, and `makeReservations` looks for available
devices in one statement and inserts their reservations in another. Still no device
is reserved twice: what has been committed about its reservation is alternately a
grant and an end, each of which ends what the grant before it has granted
(`UsbipIce.Postgres.granted_alternately`). The grants are the calls of
`makeReservations` that have returned the device, one each.

It is the primary key that does this, and the lock on it, not the status of the
device.
-/

namespace UsbipIce

open Lib Database ReadCommitted

/-! ### The reservation of a device as a row -/

/-- The reservation of a device, where there is such a device. -/
def Database.reservation? (db : Database) (serial : String) : Option (Option ReservationRow) :=
  if serial ∈ db.device.keys then some (db.reservations.find? serial) else none

/-- What a write makes of the reservation. -/
def RowWrite.actOn (reservation : Option (Option ReservationRow)) :
    RowWrite → Option (Option ReservationRow)
  | .setStatus .. => reservation
  | .insert row => reservation.map fun _ => some row
  | .delete _ => reservation.map fun _ => none

/-- What becomes of a write of the reservation. -/
def RowWrite.judge (reservation : Option (Option ReservationRow)) : RowWrite → Check
  | .setStatus .. => .passes
  | .insert _ => if reservation.join.isSome then .fails else .passes
  | .delete row => if reservation.join = some row then .passes else .skipped

namespace Database

@[simp] theorem device_keys_write (db : Database) (w : RowWrite) :
    (db.write w).device.keys = db.device.keys := by
  cases w with
  | setStatus serial st =>
    show (db.setStatus _ st).device.keys = db.device.keys
    simp [setStatus]
  | insert row =>
    rw [write, insertReservation]
    split
    · split <;> rfl
    · rfl
  | delete row => rfl

theorem reservation?_write (db : Database) (w : RowWrite) (serial : String)
    (h : serial ∈ db.device.keys →
      (db.write w).reservations.find? serial = db.reservations.find? serial) :
    (db.write w).reservation? serial = db.reservation? serial := by
  rw [reservation?, reservation?, device_keys_write]
  split
  · rename_i hdevice
    rw [h hdevice]
  · rfl

/-- A reservation that can be inserted is there. -/
theorem find?_insertReservation {db : Database} {row : ReservationRow}
    (hdevice : row.device ∈ db.device.keys) (hfree : row.device ∉ db.reservations.keys) :
    (db.insertReservation row).reservations.find? row.device = some row := by
  rw [insertReservation, dif_pos hdevice]
  split
  · rename_i hnone
    have hsome := Table.insert?_isSome.mpr hfree
    rw [hnone] at hsome
    cases hsome
  · rename_i reservations hins
    show reservations.find? row.device = some row
    rw [Table.find?_insert? hins, if_pos rfl]

/-- A reservation that is deleted is not there any more. -/
theorem find?_deleteReservation {db : Database} {row : ReservationRow}
    (hrow : row ∈ db.reservations) :
    (db.deleteReservation row).reservations.find? row.device = none := by
  refine Table.find?_eq_none.mpr fun hreserved => ?_
  obtain ⟨r, hr, hdevice⟩ := Table.mem_keys.mp hreserved
  obtain ⟨hr, hne⟩ := Table.mem_delete.mp hr
  rw [Table.eq_of_key_eq hr hrow hdevice, decide_eq_true rfl] at hne
  cases hne

/-- A write of one reservation leaves the others. -/
@[simp] theorem find?_write_of_ne {db : Database} {w : RowWrite} {serial : String}
    (hkey : w.key ≠ .reservation serial) :
    (db.write w).reservations.find? serial = db.reservations.find? serial := by
  cases w with
  | setStatus serial' st => rfl
  | insert row =>
    have hne : serial ≠ row.device := by
      rintro rfl
      exact hkey rfl
    rw [write, insertReservation]
    split
    · split
      · rfl
      · rename_i reservations hins
        show reservations.find? serial = _
        rw [Table.find?_insert? hins, if_neg hne]
    · rfl
  | delete row =>
    show (db.reservations.delete _).find? serial = _
    rw [Table.find?_delete]
    cases hfind : db.reservations.find? serial with
    | none => rfl
    | some r =>
      obtain ⟨-, rfl⟩ := Table.find?_eq_some.mp hfind
      have hne : r ≠ row := by
        rintro rfl
        exact hkey rfl
      exact Option.filter_some_pos (by simp [hne])

@[simp] theorem join_reservation? (db : Database) (serial : String) :
    (db.reservation? serial).join = db.reservations.find? serial := by
  rw [reservation?]
  split
  · rfl
  · rename_i hdevice
    symm
    rw [Option.join_none, Table.find?_eq_none]
    intro hreserved
    obtain ⟨r, hr, rfl⟩ := Table.mem_keys.mp hreserved
    exact hdevice (db.reservationsDevice r hr)

end Database

/-- **The reservation of a device as a row of its own.** -/
def reservationRow (serial : String) :
    Row postgres (.reservation serial) (Option (Option ReservationRow)) where
  read db := db.reservation? serial
  act := RowWrite.actOn
  judge := RowWrite.judge
  read_apply := by
    intro db w hkey hcheck
    show (db.write w).reservation? serial = w.actOn (db.reservation? serial)
    cases w with
    | setStatus serial' st => cases hkey
    | insert row =>
      obtain rfl := RowKey.reservation.inj hkey
      have hfree : row.device ∉ db.reservations.keys := by
        intro hreserved
        rw [show postgres.check db (.insert row) = .fails from if_pos hreserved] at hcheck
        cases hcheck
      rw [Database.reservation?, Database.reservation?, Database.device_keys_write]
      split
      · rename_i hdevice
        exact congrArg some (Database.find?_insertReservation hdevice hfree)
      · rfl
    | delete row =>
      obtain rfl := RowKey.reservation.inj hkey
      rw [Database.reservation?, Database.reservation?, Database.device_keys_write]
      split
      · have hrow : row ∈ db.reservations := by
          by_contra hno
          rw [show postgres.check db (.delete row) = .skipped from if_neg hno] at hcheck
          cases hcheck
        exact congrArg some (Database.find?_deleteReservation hrow)
      · rfl
  read_apply_of_ne := by
    intro db w hkey
    exact db.reservation?_write w serial fun _ => Database.find?_write_of_ne hkey
  check_eq := by
    intro db w hkey
    show w.check db = w.judge (db.reservation? serial)
    cases w with
    | setStatus serial' st => rfl
    | insert row =>
      obtain rfl := RowKey.reservation.inj hkey
      rw [RowWrite.check, RowWrite.judge, join_reservation?]
      refine if_congr ?_ rfl rfl
      simp [Option.isSome_iff_ne_none]
    | delete row =>
      obtain rfl := RowKey.reservation.inj hkey
      rw [RowWrite.check, RowWrite.judge, join_reservation?]
      refine if_congr ?_ rfl rfl
      rw [Table.find?_eq_some, and_iff_left rfl]

/-! ### Grants and ends -/

/-- What is inserted. -/
def RowWrite.inserted : RowWrite → List ReservationRow
  | .insert row => [row]
  | .setStatus .. | .delete _ => []

/-- What a statement inserts. -/
def Statement.inserted : Statement → List ReservationRow
  | .insertReservations rows => rows
  | .updateDevice .. | .returnEnded _ | .deleteReservations _ => []

/-- The reservations that a call is to make of what it has staged. -/
def Call.granted (c : Call) : List ReservationRow :=
  match c.procedure with
  | .makeReservations _ clientName now => newReservations c.res clientName now
  | .endReservations .. | .endAllReservations _ | .updateDeviceStatus .. => []

@[simp] theorem map_device_granted (c : Call) : c.granted.map ReservationRow.device =
    if c.procedure.Reserves then c.res.map ReservedRow.serial else [] := by
  rw [Call.granted]
  split
  · rename_i hprocedure
    rw [hprocedure]
    exact (map_device_newReservations _ _ _).trans (if_pos trivial).symm
  all_goals
    rename_i hprocedure
    rw [hprocedure]
    exact (if_neg id).symm

/-- **A grant follows an end, and an end follows the grant of what it ends**, from
one reservation of a device to another. -/
def Alternately : Option ReservationRow → List RowWrite → Option ReservationRow → Prop
  | r, [], r' => r = r'
  | none, .insert row :: writes, r' => Alternately (some row) writes r'
  | some row, .delete row' :: writes, r' => row = row' ∧ Alternately none writes r'
  | _, _ :: _, _ => False

theorem inserted_of_first {db : Database} {c c' : Call} {res : List ReservedRow}
    {statements : List Statement} (h : c.first db res = some (c', some statements)) :
    statements.flatMap Statement.inserted = c'.granted := by
  have hsame := (keeps_of_first h).procedure
  rw [Call.first] at h
  rw [Call.granted, hsame]
  cases hprocedure : c.procedure with
  | makeReservations amount clientName now =>
    rw [hprocedure] at h
    dsimp only at h
    split at h
    · cases h
    · split at h
      · obtain ⟨rfl, hstatements⟩ := Prod.mk.inj (Option.some.inj h)
        obtain rfl := Option.some.inj hstatements
        exact List.append_nil _
      · cases h
  | endReservations clientName serials =>
    rw [hprocedure] at h
    obtain rfl := Option.some.inj (Prod.mk.inj (Option.some.inj h)).2
    rfl
  | endAllReservations clientName =>
    rw [hprocedure] at h
    obtain rfl := Option.some.inj (Prod.mk.inj (Option.some.inj h)).2
    rfl
  | updateDeviceStatus serial st =>
    rw [hprocedure] at h
    dsimp only at h
    split at h
    · obtain rfl := Option.some.inj (Prod.mk.inj (Option.some.inj h)).2
      rfl
    · cases h

/-- What is inserted is what `makeReservations` has staged. -/
def insertions : Plan postgres ReservationRow where
  ofRow := RowWrite.inserted
  ofStatement := Statement.inserted
  ofData := Call.granted
  rows := by
    intro db statement
    have hnil : ∀ {α : Type} (l : List α) (f : α → RowWrite), (∀ x, (f x).inserted = []) →
        (l.map f).flatMap RowWrite.inserted = [] := by
      intro α l f hf
      rw [List.flatMap_map, List.flatMap_eq_nil_iff]
      exact fun x _ => hf x
    show ((statement.rows db).flatMap RowWrite.inserted).Perm statement.inserted
    cases statement with
    | updateDevice serials st =>
      rw [Statement.rows, hnil _ _ fun _ => rfl]
      exact List.Perm.refl _
    | insertReservations rows =>
      rw [Statement.rows, List.flatMap_map]
      exact List.Perm.of_eq (List.flatMap_singleton' rows)
    | returnEnded serials => exact List.Perm.refl _
    | deleteReservations serials =>
      rw [Statement.rows, hnil _ _ fun _ => rfl]
      exact List.Perm.refl _
  skipped := by
    intro db w hcheck
    cases w with
    | insert row =>
      rw [show postgres.check db (.insert row) = if row.device ∈ db.reservations.keys then .fails
        else .passes from rfl] at hcheck
      split at hcheck <;> cases hcheck
    | setStatus | delete => rfl
  first := by
    intro db c res c' statements h
    exact List.Perm.of_eq (inserted_of_first h)
  answer := by
    intro db statement c
    show (c.after db statement).granted = c.granted
    simp [Call.granted]

namespace Postgres

/-! ### Grants alternate with ends -/

theorem alternately_of_passing {serial : String} {r : Option ReservationRow}
    {writes : List RowWrite} (hkeys : ∀ w ∈ writes, w.key = .reservation serial)
    (h : (reservationRow serial).Passing (some r) writes) :
    ∃ r', writes.foldl RowWrite.actOn (some r) = some r' ∧ Alternately r writes r' := by
  induction writes generalizing r with
  | nil => exact ⟨r, rfl, rfl⟩
  | cons w writes ih =>
    obtain ⟨hkey, hrestKeys⟩ := List.forall_mem_cons.mp hkeys
    obtain ⟨hjudge, hrest⟩ := h
    cases w with
    | setStatus serial' st => cases hkey
    | insert row =>
      cases r with
      | none => exact ih hrestKeys hrest
      | some row' => cases hjudge
    | delete row =>
      obtain ⟨r', hfold, halternately⟩ := ih hrestKeys hrest
      cases r with
      | none => cases hjudge
      | some row' =>
        have heq : row' = row := by
          by_contra hne
          rw [show (reservationRow serial).judge (some (some row')) (.delete row) = .skipped from
            if_neg fun h => hne (Option.some.inj h)] at hjudge
          cases hjudge
        exact ⟨r', hfold, heq, halternately⟩

/-- The calls that have been granted a device, in the order in which they have
committed. -/
def grants (s : Postgres) (serial : String) : List ℕ :=
  (postgres.history s (.reservation serial)).flatMap fun e => e.2.inserted.map fun _ => e.1

/-- What a call has staged, it has staged once. -/
theorem nodup_res_of_reaches {db : Database} {procedures : List Procedure} {s : Postgres}
    (h : postgres.machine.Reaches (start db procedures) s) {t : ℕ} {tx : CallTransaction}
    (htx : s.transactions[t]? = some tx) : (tx.data.res.map ReservedRow.serial).Nodup := by
  refine h.invariant (I := fun s => ∀ t tx, s.transactions[t]? = some tx →
    (tx.data.res.map ReservedRow.serial).Nodup) ?_ ?_ t tx htx
  · intro s i s' hs hstep j tx₂ hj
    obtain ⟨tx, htx, hrule⟩ := Schema.rule_of_step hstep
    obtain ⟨tx', hset, hkeeps⟩ := keeps_of_rule hrule
    rw [hset, getElem?_set_of_some htx] at hj
    split at hj
    · obtain rfl := Option.some.inj hj
      rcases hkeeps.res with hsame | ⟨db, n, hlimit⟩
      · rw [hsame]
        exact hs _ tx htx
      · exact hlimit.nodup_map db.nodup_available_serials
    · exact hs j tx₂ hj
  · intro t tx htx
    obtain ⟨c, hc, rfl⟩ := Schema.getElem?_start htx
    obtain ⟨procedure, -, rfl⟩ := List.mem_map.mp (List.mem_of_getElem? hc)
    exact List.nodup_nil

/-- The calls in a list of writes that have inserted, one by one. -/
theorem count_flatMap_inserted (l : List (ℕ × RowWrite)) (t : ℕ) :
    (l.flatMap fun e => e.2.inserted.map fun _ => e.1).count t =
      ((l.filter fun e => e.1 = t).flatMap fun e => e.2.inserted).length := by
  induction l with
  | nil => rfl
  | cons e l ih =>
    rw [List.flatMap_cons, List.count_append, ih, List.filter_cons]
    by_cases ht : e.1 = t
    · rw [if_pos (decide_eq_true ht), List.flatMap_cons, List.length_append, ht, List.map_const',
        List.count_replicate_self]
    · rw [if_neg (by simpa using ht), List.map_const', List.count_replicate,
        if_neg (by simpa using ht), Nat.zero_add]

/-- What is inserted under a key. -/
theorem flatMap_inserted_ofKey (writes : List RowWrite) (serial : String) :
    (postgres.ofKey (.reservation serial) writes).flatMap RowWrite.inserted =
      (writes.flatMap RowWrite.inserted).filter fun row => row.device = serial := by
  induction writes with
  | nil => rfl
  | cons w writes ih =>
    rw [Schema.ofKey, List.filter_cons, List.flatMap_cons, List.filter_append, ← ih, ← Schema.ofKey]
    cases w with
    | setStatus serial' st => rfl
    | delete row =>
      rw [RowWrite.inserted, List.filter_nil, List.nil_append]
      split <;> rfl
    | insert row =>
      have hkey : postgres.key (.insert row) = .reservation row.device := rfl
      rw [hkey, RowWrite.inserted, List.filter_singleton]
      by_cases hrow : row.device = serial
      · rw [hrow, decide_eq_true rfl, decide_eq_true rfl]
        rfl
      · rw [decide_eq_false hrow, decide_eq_false fun h => hrow (RowKey.reservation.inj h)]
        rfl

theorem count_grants (s : Postgres) (serial : String) (t : ℕ) :
    (grants s serial).count t = if s.committed t = true then
      (((s.performed t).flatMap RowWrite.inserted).map ReservationRow.device).count serial
    else 0 := by
  rw [grants, count_flatMap_inserted, filter_history]
  split
  · rw [List.flatMap_map, flatMap_inserted_ofKey, List.count_eq_countP, List.countP_map,
      List.countP_eq_length_filter]
    refine congrArg List.length (List.filter_congr fun row _ => ?_)
    rw [Function.comp_apply, beq_eq_decide]
  · rfl

/-- **A call is granted the devices that it returns**, if it commits. -/
theorem count_grants_of_committed {db : Database} {procedures : List Procedure} {s : Postgres}
    (h : postgres.machine.Reaches (start db procedures) s) {t : ℕ} {tx : CallTransaction}
    (htx : s.transactions[t]? = some tx) (hstage : tx.stage = .committed) (serial : String) :
    (grants s serial).count t = if tx.data.procedure.Reserves then
      (tx.data.res.map ReservedRow.serial).count serial else 0 := by
  have hdone : ((s.performed t).flatMap RowWrite.inserted).Perm tx.data.granted :=
    insertions.carriedOut_of_reaches h htx hstage
  rw [count_grants, if_pos (s.committed_iff.mpr ⟨tx, htx, hstage⟩),
    (hdone.map ReservationRow.device).count_eq, map_device_granted]
  split <;> rfl

/-- **The reservation of a device is alternately granted and ended.** In every run
of any calls, what has been committed about it is alternately a grant and an end of
what was granted, from the reservation there was to the one there is; and the
grants are the calls of `makeReservations` that have returned the device, one
each. -/
theorem granted_alternately {db : Database} {procedures : List Procedure} {s : Postgres}
    (h : postgres.machine.Reaches (start db procedures) s) {serial : String}
    (hdevice : serial ∈ db.device.keys) :
    Alternately (db.reservations.find? serial)
        ((postgres.history s (.reservation serial)).map Prod.snd)
        (s.database.reservations.find? serial) ∧
      (grants s serial).Nodup ∧
      ∀ t, t ∈ grants s serial ↔ ∃ tx, s.transactions[t]? = some tx ∧ tx.stage = .committed ∧
        tx.data.procedure.Reserves ∧ serial ∈ tx.data.res.map ReservedRow.serial := by
  have hreplays : (reservationRow serial).Replays (db.reservation? serial) s :=
    Row.replays_of_reaches h
  refine ⟨?_, List.nodup_iff_count_le_one.mpr fun t => ?_, fun t => ?_⟩
  · have hpassing := hreplays.passing
    have hread : s.database.reservation? serial = _ := hreplays.read_eq
    rw [show db.reservation? serial = some _ from if_pos hdevice] at hpassing hread
    obtain ⟨r', hfold, halternately⟩ := alternately_of_passing (fun w hw => by
      obtain ⟨e, he, rfl⟩ := List.mem_map.mp hw
      exact of_decide_eq_true (List.mem_filter.mp (List.mem_of_mem_filter he)).2) hpassing
    have hjoin := s.database.join_reservation? serial
    rw [hread, show (reservationRow serial).act = RowWrite.actOn from rfl, hfold] at hjoin
    rwa [← hjoin]
  · by_cases hcommitted : s.committed t = true
    · obtain ⟨tx, htx, hstage⟩ := s.committed_iff.mp hcommitted
      rw [count_grants_of_committed h htx hstage]
      split
      · exact List.nodup_iff_count_le_one.mp (nodup_res_of_reaches h htx) serial
      · exact Nat.zero_le _
    · rw [count_grants, if_neg hcommitted]
      exact Nat.zero_le _
  · rw [← List.count_pos_iff]
    constructor
    · intro hpos
      have hcommitted : s.committed t = true := by
        by_contra hno
        rw [count_grants, if_neg hno] at hpos
        exact absurd hpos (Nat.lt_irrefl 0)
      obtain ⟨tx, htx, hstage⟩ := s.committed_iff.mp hcommitted
      rw [count_grants_of_committed h htx hstage] at hpos
      split at hpos
      · rename_i hreserves
        exact ⟨tx, htx, hstage, hreserves, List.count_pos_iff.mp hpos⟩
      · exact absurd hpos (Nat.lt_irrefl 0)
    · rintro ⟨tx, htx, hstage, hreserves, hmem⟩
      rw [count_grants_of_committed h htx hstage, if_pos hreserves]
      exact List.count_pos_iff.mpr hmem

/-- A device is reserved, given back and reserved again. -/
def bothClients : Postgres :=
  start oneAvailable [.makeReservations 1 "c" 0, .endAllReservations "c",
    .updateDeviceStatus "A" .available, .makeReservations 1 "d" 10]

/-- The calls, one after the other. -/
def oneAfterTheOther : List (ServerInput (List ReservedRow)) :=
  [.first 0 [⟨"A", "10.0.0.1", 8081⟩], .statement 0, .write 0 0, .statement 0, .write 0 0,
    .commit 0, .first 1 [], .statement 1, .statement 1, .write 1 0, .statement 1, .write 1 0,
    .commit 1, .first 2 [], .statement 2, .write 2 0, .commit 2,
    .first 3 [⟨"A", "10.0.0.1", 8081⟩], .statement 3, .write 3 0, .statement 3, .write 3 0,
    .commit 3]

theorem granted_twice : ∃ s, postgres.machine.run bothClients oneAfterTheOther = some s ∧
    grants s "A" = [0, 3] ∧
    Alternately none ((postgres.history s (.reservation "A")).map Prod.snd)
      (s.database.reservations.find? "A") := by
  obtain ⟨s, hs, hgrants⟩ : ∃ s, postgres.machine.run bothClients oneAfterTheOther = some s ∧
      grants s "A" = [0, 3] :=
    Option.map_eq_some_iff.mp
      (show (postgres.machine.run bothClients oneAfterTheOther).map (grants · "A") = some [0, 3] by
        decide)
  exact ⟨s, hs, hgrants, (granted_alternately ⟨_, hs⟩ (by decide)).1⟩

end Postgres

end UsbipIce
