import UsbipIce.Control.Grants
import UsbipIce.Control.Reservations

/-!
# Whose reservations are ended

The functions that end reservations stage the serials of a client's reservations in
one statement and delete whatever reservations there are of these serials in
another. A reservation that has been ended and made again in between, for somebody
else, is deleted with them (`UsbipIce.Postgres.anothers_ended`).

The condition `UsbipIce.Postgres.Spares` is on `makeReservations`: what it commits
is not about devices that a call for another client has staged and not begun to
delete. Along a run that meets it every call ends its own client's reservations
(`UsbipIce.Postgres.endsOwn_of_spares`).
-/

namespace UsbipIce

open Lib Database ReadCommitted

/-- The client whose reservations are ended. -/
def Procedure.ends : Procedure → Option String
  | .endReservations clientName _ | .endAllReservations clientName => some clientName
  | .makeReservations .. | .updateDeviceStatus .. => none

/-- The devices whose reservations are to be deleted. -/
def Statement.toDelete : Statement → List String
  | .deleteReservations serials => serials
  | .updateDevice .. | .insertReservations _ | .returnEnded _ => []

namespace Database

/-- A reservation that is there was there, or has been inserted. -/
theorem mem_reservations_write {db : Database} {w : RowWrite} {r : ReservationRow}
    (h : r ∈ (db.write w).reservations) : r ∈ db.reservations ∨ r ∈ w.inserted := by
  cases w with
  | setStatus serial st => exact Or.inl h
  | insert row =>
    rw [write, insertReservation] at h
    split at h
    · split at h
      · exact Or.inl h
      · rename_i reservations hins
        rw [Table.mem_def, Table.insert?_rows hins] at h
        exact List.mem_append.mp h
    · exact Or.inl h
  | delete row => exact Or.inl (Table.mem_delete.mp h).1

theorem mem_reservations_foldl_write {db : Database} {writes : List RowWrite}
    {r : ReservationRow} (h : r ∈ (writes.foldl Database.write db).reservations) :
    r ∈ db.reservations ∨ r ∈ writes.flatMap RowWrite.inserted := by
  induction writes generalizing db with
  | nil => exact Or.inl h
  | cons w writes ih =>
    rw [List.flatMap_cons, List.mem_append]
    rcases ih h with h | h
    · exact (mem_reservations_write h).imp_right Or.inl
    · exact Or.inr (Or.inr h)

end Database

namespace Postgres

/-- The devices whose reservations a call has staged and not begun to delete. -/
def toEnd (tx : CallTransaction) : List String :=
  tx.stage.statements.flatMap Statement.toDelete

/-- The condition: no device that a call is about to give back is reserved for
another client. -/
def Spares (s : Postgres) : ServerInput (List ReservedRow) → Prop
  | .commit t => ∀ tx ∈ s.transactions[t]?, ∀ row ∈ tx.writes.flatMap RowWrite.inserted,
      ∀ tx' ∈ s.transactions.eraseIdx t, row.device ∈ toEnd tx' →
        tx'.data.procedure.ends = some row.clientName
  | .first .. | .statement _ | .write .. | .resume _ | .kill _ => True

instance (s : Postgres) : DecidablePred (Spares s)
  | .commit _ => by
    unfold Spares
    infer_instance
  | .first .. | .statement _ | .write .. | .resume _ | .kill _ => inferInstanceAs (Decidable True)

/-- **Every call ends reservations of its own client.** -/
def EndsOwn (s : Postgres) : Prop :=
  ∀ (t : ℕ) (row : ReservationRow), (t, .delete row) ∈ s.log →
    ∀ tx, s.transactions[t]? = some tx → tx.data.procedure.ends = some row.clientName

/-- What a call has staged, as far as it is reserved, is its own client's. -/
def OwnStaged (db : Database) (tx : CallTransaction) : Prop :=
  ∀ serial ∈ toEnd tx, ∃ clientName, tx.data.procedure.ends = some clientName ∧
    ∀ r ∈ db.reservations, r.device = serial → r.clientName = clientName

/-- **The invariant.** -/
structure Spared (s : Postgres) : Prop where
  staged : ∀ (t : ℕ) (tx : CallTransaction), s.transactions[t]? = some tx →
    OwnStaged s.database tx
  rows : ∀ (t : ℕ) (tx : CallTransaction), s.transactions[t]? = some tx →
    ∀ row, .delete row ∈ tx.stage.rows → tx.data.procedure.ends = some row.clientName
  ended : EndsOwn s

/-! ### What a step does to what is staged -/

/-- **What is staged is the client's own.** -/
theorem own_of_first {db : Database} {c c' : Call} {res : List ReservedRow}
    {statements : List Statement} (h : c.first db res = some (c', some statements))
    {serial : String} (hserial : serial ∈ statements.flatMap Statement.toDelete) :
    ∃ clientName, c'.procedure.ends = some clientName ∧
      ∀ r ∈ db.reservations, r.device = serial → r.clientName = clientName := by
  have hsame := (keeps_of_first h).procedure
  -- a client's reservations, by their serials
  have hown : ∀ (clientName : String) (p : ReservationRow → Bool),
      (∀ r, p r = true → r.clientName = clientName) →
      statements = endStatements ((db.reservations.rows.filter p).map ReservationRow.device) →
      ∀ r ∈ db.reservations, r.device = serial → r.clientName = clientName := by
    rintro clientName p hp rfl r hr rfl
    have hmem : r.device ∈ (db.reservations.rows.filter p).map ReservationRow.device := by
      simpa [endStatements, Statement.toDelete] using hserial
    obtain ⟨r', hr', hdevice⟩ := List.mem_map.mp hmem
    obtain ⟨hr', hp'⟩ := List.mem_filter.mp hr'
    rw [← Table.eq_of_key_eq hr' hr hdevice]
    exact hp r' hp'
  rw [hsame]
  rw [Call.first] at h
  split at h
  · split at h
    · cases h
    · split at h
      · obtain rfl := Option.some.inj (Prod.mk.inj (Option.some.inj h)).2
        simp [reserveStatements, Statement.toDelete] at hserial
      · cases h
  · rename_i clientName serialIds hprocedure
    rw [hprocedure]
    refine ⟨clientName, rfl, hown clientName
      (fun r => r.clientName = clientName ∧ r.device ∈ serialIds)
      (fun r hr => (of_decide_eq_true hr).1) ?_⟩
    exact (Option.some.inj (Prod.mk.inj (Option.some.inj h)).2).symm
  · rename_i clientName hprocedure
    rw [hprocedure]
    refine ⟨clientName, rfl, hown clientName _ (fun r hr => of_decide_eq_true hr) ?_⟩
    exact (Option.some.inj (Prod.mk.inj (Option.some.inj h)).2).symm
  · split at h
    · obtain rfl := Option.some.inj (Prod.mk.inj (Option.some.inj h)).2
      simp [Statement.toDelete] at hserial
    · cases h

variable {s s' : Postgres} {t : ℕ} {tx : CallTransaction} {i : ServerInput (List ReservedRow)}

/-- The rows that a statement deletes are the client's own, if what is staged is. -/
theorem own_of_rows {db : Database} {statement : Statement} {statements : List Statement}
    (hstage : tx.stage = .writing [] (statement :: statements)) (hstaged : OwnStaged db tx)
    (hinserted : tx.data.procedure.ends ≠ none → tx.writes.flatMap RowWrite.inserted = [])
    {row : ReservationRow} (hrow : .delete row ∈ statement.rows (postgres.view db tx)) :
    tx.data.procedure.ends = some row.clientName := by
  cases statement with
  | updateDevice serials st =>
    obtain ⟨x, -, hx⟩ := List.mem_map.mp hrow
    cases hx
  | insertReservations rows =>
    obtain ⟨x, -, hx⟩ := List.mem_map.mp hrow
    cases hx
  | returnEnded serials => cases hrow
  | deleteReservations serials =>
    obtain ⟨x, hx, heq⟩ := List.mem_map.mp hrow
    obtain rfl := RowWrite.delete.inj heq
    obtain ⟨hx, hserial⟩ := List.mem_filter.mp hx
    obtain ⟨clientName, hends, hown⟩ := hstaged x.device (by
      rw [toEnd, hstage]
      exact List.mem_append_left _ (of_decide_eq_true hserial))
    rcases Database.mem_reservations_foldl_write hx with hold | hnew
    · rw [hends, hown x hold rfl]
    · rw [hinserted (by rw [hends]; nofun)] at hnew
      cases hnew

/-- **What a step does to what is staged**: it stages and takes up reservations of
the call's own client only. -/
theorem own_of_rule (h : postgres.Rule s t tx i s') (hidle : ¬tx.stage.Open → tx.writes = [])
    (hinserted : tx.data.procedure.ends ≠ none → tx.writes.flatMap RowWrite.inserted = [])
    (hstaged : OwnStaged s.database tx)
    (hrows : ∀ row, .delete row ∈ tx.stage.rows →
      tx.data.procedure.ends = some row.clientName) :
    ∃ tx', s'.transactions = s.transactions.set t tx' ∧
      tx'.data.procedure = tx.data.procedure ∧
      (toEnd tx' = [] ∨ s'.database = s.database ∧ OwnStaged s.database tx') ∧
      ∀ row, .delete row ∈ tx'.stage.rows → tx'.data.procedure.ends = some row.clientName := by
  -- rows and statements that get fewer
  have htakes : ∀ {row : RowWrite} {rows : List RowWrite} {statements : List Statement},
      Takes tx i row rows statements →
      (toEnd { tx with stage := .writing rows statements } = toEnd tx) ∧
        ∀ row, .delete row ∈ rows → tx.data.procedure.ends = some row.clientName := by
    intro row rows statements htakes
    refine ⟨?_, fun row hrow => hrows row ?_⟩
    · rw [toEnd, toEnd, htakes.statements_eq]
      rfl
    · exact htakes.rows_perm.symm.subset (List.mem_cons_of_mem _ hrow)
  cases h with
  | raises hstage hfirst => exact ⟨_, rfl, (keeps_of_first hfirst).procedure, Or.inl rfl, nofun⟩
  | first hstage hfirst =>
    have hnil : tx.writes = [] := hidle (by rw [hstage]; exact id)
    rw [view_of_nil _ hnil] at hfirst
    exact ⟨_, rfl, (keeps_of_first hfirst).procedure,
      Or.inr ⟨rfl, fun serial hserial => own_of_first hfirst hserial⟩, nofun⟩
  | statement hstage =>
    refine ⟨_, rfl, procedure_after _ _ _, Or.inr ⟨rfl, fun serial hserial => ?_⟩,
      fun row hrow => ?_⟩
    · obtain ⟨clientName, hends, hown⟩ := hstaged serial (by
        rw [toEnd, hstage]
        exact List.mem_append_right _ hserial)
      exact ⟨clientName, (congrArg Procedure.ends (procedure_after _ _ _)).trans hends, hown⟩
    · exact (congrArg Procedure.ends (procedure_after _ _ _)).trans
        (own_of_rows hstage hstaged hinserted hrow)
  | waits hstage hk hheld =>
    refine ⟨_, rfl, rfl, Or.inr ⟨rfl, fun serial hserial => hstaged serial ?_⟩, fun row hrow => ?_⟩
    · rw [toEnd, hstage]
      exact hserial
    · refine hrows row ?_
      rw [hstage]
      exact (perm_cons_eraseIdx hk).symm.subset hrow
  | fails => exact ⟨_, rfl, rfl, Or.inl rfl, nofun⟩
  | skips htakes' hfree hcheck =>
    obtain ⟨hsame, hrest⟩ := htakes htakes'
    exact ⟨_, rfl, rfl, Or.inr ⟨rfl, fun serial hserial => hstaged serial (hsame ▸ hserial)⟩, hrest⟩
  | passes htakes' hfree hcheck =>
    obtain ⟨hsame, hrest⟩ := htakes htakes'
    exact ⟨_, rfl, rfl, Or.inr ⟨rfl, fun serial hserial => hstaged serial (hsame ▸ hserial)⟩, hrest⟩
  | commits => exact ⟨_, rfl, rfl, Or.inl rfl, nofun⟩
  | killed => exact ⟨_, rfl, rfl, Or.inl rfl, nofun⟩

/-- What takes effect was to be written. -/
theorem log_of_rule (h : postgres.Rule s t tx i s') :
    ∀ e ∈ s'.log, e ∈ s.log ∨ ∃ row ∈ tx.stage.rows, e = (t, row) := by
  intro e he
  obtain ⟨e', he', rfl⟩ := List.mem_map.mp he
  rcases effects_of_rule h e' he' with hold | ⟨row, hrow, rfl⟩
  · exact Or.inl (List.mem_map.mpr ⟨e', hold, rfl⟩)
  · exact Or.inr ⟨row, hrow, rfl⟩

/-- A call that ends reservations makes none. -/
theorem inserted_eq_nil {db : Database} {procedures : List Procedure}
    (h : postgres.machine.Reaches (start db procedures) s) (htx : s.transactions[t]? = some tx)
    (hends : tx.data.procedure.ends ≠ none) : tx.writes.flatMap RowWrite.inserted = [] := by
  by_cases hopen : tx.stage.Open
  · have hwork : (insertions.work tx).Perm tx.data.granted :=
      (Plan.fulfils_of_reaches h htx).isOpen hopen
    have hnil : tx.data.granted = [] := by
      rw [Call.granted]
      split
      · rename_i hprocedure
        rw [hprocedure] at hends
        exact absurd rfl hends
      all_goals rfl
    rw [hnil] at hwork
    exact (List.append_eq_nil_iff.mp hwork.eq_nil).1
  · rw [(recorded_of_reaches h).sound.idle t tx htx hopen]
    rfl

theorem spared_step {db : Database} {procedures : List Procedure}
    (hreaches : postgres.machine.Reaches (start db procedures) s) (hs : Spared s)
    (hspares : Spares s i) (h : postgres.step s i = some s') : Spared s' := by
  obtain ⟨tx, htx, hrule⟩ := Schema.rule_of_step h
  have hidle := (recorded_of_reaches hreaches).sound.idle _ tx htx
  obtain ⟨tx', hset, hprocedure, hstaged, hrows⟩ := own_of_rule hrule hidle
    (inserted_eq_nil hreaches htx) (hs.staged _ tx htx) (hs.rows _ tx htx)
  have hget := fun j => getElem?_set_of_some htx tx' j
  rw [← hset] at hget
  refine ⟨fun j tx₂ hj => ?_, fun j tx₂ hj => ?_, fun j row hlog tx₂ hj => ?_⟩
  · rw [hget] at hj
    split at hj
    · obtain rfl := Option.some.inj hj
      rcases hstaged with hnil | ⟨hdatabase, hstaged⟩
      · intro serial hserial
        rw [hnil] at hserial
        cases hserial
      · rw [hdatabase]
        exact hstaged
    · rename_i hne
      rcases database_of_rule hrule with hdatabase | ⟨hcommit, hdatabase⟩
      · rw [hdatabase]
        exact hs.staged j tx₂ hj
      · intro serial hserial
        obtain ⟨clientName, hends, hown⟩ := hs.staged j tx₂ hj serial hserial
        refine ⟨clientName, hends, fun r hr hdevice => ?_⟩
        rw [hdatabase] at hr
        rcases Database.mem_reservations_foldl_write hr with hold | hnew
        · exact hown r hold hdevice
        · rw [hcommit] at hspares
          have hends' := hspares tx htx r hnew tx₂ (List.mem_eraseIdx_iff_getElem?.mpr ⟨j, hne, hj⟩)
            (hdevice ▸ hserial)
          exact Option.some.inj (hends'.symm.trans hends)
  · rw [hget] at hj
    split at hj
    · obtain rfl := Option.some.inj hj
      exact hrows
    · exact hs.rows j tx₂ hj
  · rcases log_of_rule hrule _ hlog with hold | ⟨row', hrow', heq⟩
    · rw [hget] at hj
      split at hj
      · rename_i heq
        obtain rfl := Option.some.inj hj
        rw [hprocedure]
        exact hs.ended j row hold tx (heq ▸ htx)
      · exact hs.ended j row hold tx₂ hj
    · obtain ⟨rfl, rfl⟩ := Prod.mk.inj heq
      rw [hget, if_pos rfl] at hj
      obtain rfl := Option.some.inj hj
      rw [hprocedure]
      exact hs.rows _ tx htx row hrow'

/-- **Every call ends its own client's reservations**, in every run of any calls in
which no device that a call is about to give back is reserved for another
client. -/
theorem endsOwn_of_spares (db : Database) (procedures : List Procedure)
    {is : List (ServerInput (List ReservedRow))}
    (hspares : postgres.machine.Meets Spares (start db procedures) is)
    (h : postgres.machine.run (start db procedures) is = some s) : EndsOwn s := by
  have hstart : Spared (start db procedures) := by
    refine ⟨fun t tx htx => ?_, fun t tx htx => ?_, nofun⟩
    · obtain ⟨c, -, rfl⟩ := Schema.getElem?_start htx
      exact nofun
    · obtain ⟨c, -, rfl⟩ := Schema.getElem?_start htx
      exact nofun
  refine (Machine.invariant_of_meets
    (I := fun s => postgres.machine.Reaches (start db procedures) s ∧ Spared s) ?_
    ⟨Machine.Reaches.refl _, hstart⟩ hspares h).2.ended
  intro s i s' ⟨hreaches, hs⟩ hmeets hstep
  exact ⟨hreaches.tail hstep, spared_step hreaches hs hmeets hstep⟩

/-- A client gives its device back twice, and another one reserves it. -/
def endTwice : Postgres :=
  start Control.oneReserved [.endReservations "client" ["A"], .endAllReservations "client",
    .updateDeviceStatus "A" .available, .makeReservations 1 "d" 10]

/-- The report that the device is there again, and the reservation. -/
def meanwhile : List (ServerInput (List ReservedRow)) :=
  [.first 2 [], .statement 2, .write 2 0, .commit 2, .first 3 [⟨"A", "10.0.0.1", 8081⟩],
    .statement 3, .write 3 0, .statement 3, .write 3 0, .commit 3]

/-- The first call is done before. -/
def endsBefore : List (ServerInput (List ReservedRow)) :=
  [.first 0 [], .statement 0, .statement 0, .write 0 0, .statement 0, .write 0 0, .commit 0] ++
    meanwhile

/-- The second call comes in between, and the first one goes on last. -/
def endsAfter : List (ServerInput (List ReservedRow)) :=
  [.first 0 [], .first 1 [], .statement 1, .statement 1, .write 1 0, .statement 1, .write 1 0,
    .commit 1] ++ meanwhile ++ [.statement 0, .statement 0, .write 0 0]

theorem endsBefore_own : ∃ s, postgres.machine.run endTwice endsBefore = some s ∧ EndsOwn s := by
  obtain ⟨s, hs⟩ : ∃ s, postgres.machine.run endTwice endsBefore = some s :=
    Option.isSome_iff_exists.mp (by decide)
  exact ⟨s, hs, endsOwn_of_spares _ _ (by decide) hs⟩

/-- The last write, and the first call. -/
def lastWrite (s : Postgres) : Option (ℕ × RowWrite) × Option Procedure :=
  (s.log.getLast?, s.transactions[0]?.map fun tx => tx.data.procedure)

set_option synthInstance.maxSize 512 in
theorem endsAfter_run : (postgres.machine.run endTwice endsAfter).map lastWrite =
    some (some (0, .delete ⟨"A", "d", 3610⟩), some (.endReservations "client" ["A"])) := by
  decide

/-- **Another client's reservation is ended**: it was not there when the call
looked. -/
theorem anothers_ended :
    ∃ s, postgres.machine.run endTwice endsAfter = some s ∧ ¬EndsOwn s := by
  obtain ⟨s, hs, hlast⟩ := Option.map_eq_some_iff.mp endsAfter_run
  obtain ⟨hwrite, hcall⟩ := Prod.mk.inj hlast
  obtain ⟨tx, htx, hprocedure⟩ := Option.map_eq_some_iff.mp hcall
  refine ⟨s, hs, fun h => ?_⟩
  have hends := h 0 _ (List.mem_of_getLast? hwrite) tx htx
  rw [hprocedure] at hends
  exact absurd (Option.some.inj hends) (by decide)

end Postgres

end UsbipIce
