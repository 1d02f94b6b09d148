import UsbipIce.Control.Transactions

/-!
# Reserving what is no longer available

`makeReservations` looks for available devices in one statement and marks them
in another, which names them by their serials and does not look at the status
again. A device whose status another transaction has changed in between is
marked `reserved` all the same, whatever it has become
(`UsbipIce.Postgres.broken_overwritten`).

The condition `UsbipIce.Postgres.Keeps` is on the other transaction: what it
commits, other than making devices available, is about devices that no call of
`makeReservations` has looked up and not marked yet. Along a run that meets it
every device that is marked was available
(`UsbipIce.Postgres.reservesAvailable_of_keeps`). The invariant is
`UsbipIce.Postgres.Kept`: what is looked up and not marked yet is available.
-/

namespace UsbipIce

open Lib Database ReadCommitted

/-! ### Devices looked up and not marked yet -/

/-- The device whose status is written, if it does not become available. -/
def RowWrite.unavailable : RowWrite → List String
  | .setStatus serial st => if st = .available then [] else [serial]
  | .insert _ | .delete _ => []

namespace Postgres

/-- The devices that a call of `makeReservations` has looked up and not marked
yet. -/
def toReserve (tx : CallTransaction) : List String :=
  if tx.data.procedure.Reserves then
    tx.stage.rows.flatMap RowWrite.updated ++ tx.stage.statements.flatMap Statement.updated
  else []

/-- The condition: no device that another call is about to mark stops being
available. -/
def Keeps (s : Postgres) : ServerInput (List ReservedRow) → Prop
  | .commit t => ∀ tx ∈ s.transactions[t]?, ∀ serial ∈ tx.writes.flatMap RowWrite.unavailable,
      ∀ tx' ∈ s.transactions.eraseIdx t, serial ∉ toReserve tx'
  | .first .. | .statement _ | .write .. | .resume _ | .kill _ => True

instance (s : Postgres) : DecidablePred (Keeps s)
  | .commit _ => by
    unfold Keeps
    infer_instance
  | .first .. | .statement _ | .write .. | .resume _ | .kill _ => inferInstanceAs (Decidable True)

@[simp] theorem mem_toReserve {tx : CallTransaction} {serial : String} :
    serial ∈ toReserve tx ↔ tx.data.procedure.Reserves ∧
      (serial ∈ tx.stage.rows.flatMap RowWrite.updated ∨
        serial ∈ tx.stage.statements.flatMap Statement.updated) := by
  rw [toReserve]
  split
  · rename_i hreserves
    rw [List.mem_append, and_iff_right hreserves]
  · rename_i hno
    exact iff_of_false List.not_mem_nil fun h => hno h.1

theorem not_mem_toReserve_of_empty {tx : CallTransaction} (hrows : tx.stage.rows = [])
    (hstatements : tx.stage.statements = []) (serial : String) : serial ∉ toReserve tx := by
  rw [mem_toReserve, hrows, hstatements]
  rintro ⟨-, h | h⟩
  · cases h
  · cases h

/-- Rows and statements that get fewer. -/
theorem toReserve_of_subset {tx tx' : CallTransaction} {serial : String}
    (h : serial ∈ toReserve tx') (hprocedure : tx'.data.procedure = tx.data.procedure)
    (hrows : tx'.stage.rows ⊆ tx.stage.rows)
    (hstatements : tx'.stage.statements ⊆ tx.stage.statements) : serial ∈ toReserve tx := by
  rw [mem_toReserve, hprocedure] at h
  rw [mem_toReserve]
  refine ⟨h.1, h.2.imp (fun h => ?_) fun h => ?_⟩
  · obtain ⟨row, hrow, h⟩ := List.mem_flatMap.mp h
    exact List.mem_flatMap.mpr ⟨row, hrows hrow, h⟩
  · obtain ⟨statement, hstatement, h⟩ := List.mem_flatMap.mp h
    exact List.mem_flatMap.mpr ⟨statement, hstatements hstatement, h⟩

/-- A row is taken up. -/
theorem toReserve_of_takes {tx tx' : CallTransaction} {serial : String} (h : serial ∈ toReserve tx')
    {i : ServerInput (List ReservedRow)} {row : RowWrite} {rows : List RowWrite}
    {statements : List Statement} (htakes : Takes tx i row rows statements)
    (hprocedure : tx'.data.procedure = tx.data.procedure)
    (hstage : tx'.stage = .writing rows statements) : serial ∈ toReserve tx := by
  refine toReserve_of_subset h hprocedure ?_ ?_
  · rw [hstage]
    exact fun row hrow => htakes.rows_perm.symm.subset (List.mem_cons_of_mem _ hrow)
  · rw [hstage, htakes.statements_eq]
    exact List.Subset.refl _

/-! ### What a step does to them -/

/-- **What `makeReservations` looks up is available.** -/
theorem available_of_first {db : Database} {c c' : Call} {res : List ReservedRow}
    {statements : List Statement} (h : c.first db res = some (c', some statements))
    (hreserves : c.procedure.Reserves) {serial : String}
    (hserial : serial ∈ statements.flatMap Statement.updated) :
    db.status serial = some .available := by
  obtain ⟨-, -, hnone⟩ | ⟨-, hlimit, -, clientName, now, hstatements⟩ :=
    first_of_reserves hreserves h
  · cases hnone
  · obtain rfl := Option.some.inj hstatements
    -- only the update names devices
    have hmem : serial ∈ res.map ReservedRow.serial := by
      simpa [reserveStatements, Statement.updated] using hserial
    obtain ⟨r, hr, rfl⟩ := List.mem_map.mp hmem
    exact status_of_mem_available (hlimit.mem hr)

variable {s s' : Postgres} {t : ℕ} {tx : CallTransaction} {i : ServerInput (List ReservedRow)}

/-- **What a step does to the devices still to be marked**: what it adds to them
is available. -/
theorem toReserve_of_rule (h : postgres.Rule s t tx i s')
    (hidle : ¬tx.stage.Open → tx.writes = []) :
    ∃ tx', s'.transactions = s.transactions.set t tx' ∧
      tx'.data.procedure = tx.data.procedure ∧
      ∀ serial ∈ toReserve tx', s'.database = s.database ∧
        (serial ∈ toReserve tx ∨ s.database.status serial = some .available) := by
  cases h with
  | raises hstage hfirst =>
    exact ⟨_, rfl, (keeps_of_first hfirst).procedure,
      fun serial hserial => absurd hserial (not_mem_toReserve_of_empty rfl rfl serial)⟩
  | first hstage hfirst =>
    have hnil : tx.writes = [] := hidle (by rw [hstage]; exact id)
    rw [view_of_nil _ hnil] at hfirst
    refine ⟨_, rfl, (keeps_of_first hfirst).procedure, fun serial hserial => ⟨rfl, Or.inr ?_⟩⟩
    obtain ⟨hreserves, hserial⟩ := mem_toReserve.mp hserial
    rcases hserial with hserial | hserial
    · cases hserial
    · exact available_of_first hfirst ((keeps_of_first hfirst).procedure ▸ hreserves) hserial
  | statement hstage =>
    rename_i statement statements
    refine ⟨_, rfl, procedure_after _ _ _, fun serial hserial => ⟨rfl, Or.inl ?_⟩⟩
    obtain ⟨hreserves, hserial⟩ := mem_toReserve.mp hserial
    refine mem_toReserve.mpr ⟨procedure_after _ _ _ ▸ hreserves, Or.inr ?_⟩
    rw [hstage]
    refine List.mem_flatMap.mpr ?_
    rcases hserial with hserial | hserial
    · exact ⟨statement, List.mem_cons_self, (updated_rows _ statement).subset hserial⟩
    · obtain ⟨statement', hmem, hserial⟩ := List.mem_flatMap.mp hserial
      exact ⟨statement', List.mem_cons_of_mem _ hmem, hserial⟩
  | waits hstage hk hheld =>
    refine ⟨_, rfl, rfl, fun serial hserial => ⟨rfl, Or.inl ?_⟩⟩
    refine toReserve_of_subset hserial rfl ?_ ?_
    · rw [hstage]
      exact (perm_cons_eraseIdx hk).symm.subset
    · rw [hstage]
      exact List.Subset.refl _
  | fails htakes hfree hcheck =>
    exact ⟨_, rfl, rfl,
      fun serial hserial => absurd hserial (not_mem_toReserve_of_empty rfl rfl serial)⟩
  | skips htakes hfree hcheck =>
    exact ⟨_, rfl, rfl,
      fun serial hserial => ⟨rfl, Or.inl (toReserve_of_takes hserial htakes rfl rfl)⟩⟩
  | passes htakes hfree hcheck =>
    exact ⟨_, rfl, rfl,
      fun serial hserial => ⟨rfl, Or.inl (toReserve_of_takes hserial htakes rfl rfl)⟩⟩
  | commits hstage =>
    exact ⟨_, rfl, rfl,
      fun serial hserial => absurd hserial (not_mem_toReserve_of_empty rfl rfl serial)⟩
  | killed hstage hdeadlock =>
    exact ⟨_, rfl, rfl,
      fun serial hserial => absurd hserial (not_mem_toReserve_of_empty rfl rfl serial)⟩

/-- Only a row of the statement under way is written. -/
theorem effects_of_rule (h : postgres.Rule s t tx i s') :
    ∀ e ∈ s'.effects, e ∈ s.effects ∨
      ∃ row ∈ tx.stage.rows, e = (t, row, s.database) := by
  cases h with
  | passes htakes hfree hcheck =>
    intro e he
    refine (List.mem_append.mp he).imp_right fun he => ?_
    exact ⟨_, htakes.rows_perm.symm.subset List.mem_cons_self, List.mem_singleton.mp he⟩
  | raises | first | statement | waits | fails | skips | commits | killed =>
    exact fun e he => Or.inl he

/-- Only a commit changes what is committed. -/
theorem database_of_rule (h : postgres.Rule s t tx i s') :
    s'.database = s.database ∨
      i = .commit t ∧ s'.database = postgres.view s.database tx := by
  cases h with
  | commits hstage => exact Or.inr ⟨rfl, rfl⟩
  | raises | first | statement | waits | fails | skips | passes | killed => exact Or.inl rfl

/-- An available device that no write makes unavailable stays so. -/
theorem status_foldl_write {writes : List RowWrite} {db : Database} {serial : String}
    (hstatus : db.status serial = some .available)
    (hno : serial ∉ writes.flatMap RowWrite.unavailable) :
    (writes.foldl Database.write db).status serial = some .available := by
  induction writes generalizing db with
  | nil => exact hstatus
  | cons w writes ih =>
    rw [List.flatMap_cons, List.mem_append, not_or] at hno
    refine ih ?_ hno.2
    rw [status_write]
    cases w with
    | setStatus serial' st =>
      simp only
      split
      · rename_i heq
        have hst : st = .available := by
          by_contra hne
          rw [RowWrite.unavailable, if_neg hne] at hno
          exact hno.1 (List.mem_singleton.mpr heq)
        rw [hstatus, hst]
        rfl
      · exact hstatus
    | insert row => exact hstatus
    | delete row => exact hstatus

/-! ### Along a run -/

/-- **The invariant**: what is looked up and not marked yet is available, and
what has been marked was. -/
structure Kept (s : Postgres) : Prop where
  sound : postgres.Sound s
  available : ∀ (j : ℕ) (tx : CallTransaction), s.transactions[j]? = some tx →
    ∀ serial ∈ toReserve tx, s.database.status serial = some .available
  effects : ∀ (j : ℕ) (serial : String) (st : DeviceState) (db : Database),
    (j, .setStatus serial st, db) ∈ s.effects →
      ∀ tx, s.transactions[j]? = some tx → tx.data.procedure.Reserves →
        db.status serial = some .available

theorem kept_start (db : Database) (procedures : List Procedure) :
    Kept (start db procedures) where
  sound := Schema.sound_start _ _
  available := by
    intro j tx hj serial hserial
    obtain ⟨c, -, rfl⟩ := Schema.getElem?_start hj
    exact absurd hserial (not_mem_toReserve_of_empty rfl rfl serial)
  effects := fun j serial st db he => absurd he List.not_mem_nil

theorem kept_step (hs : Kept s) (hkeeps : Keeps s i) (h : postgres.step s i = some s') :
    Kept s' := by
  obtain ⟨tx, htx, hrule⟩ := Schema.rule_of_step h
  obtain ⟨tx', hset, hprocedure, htoReserve⟩ := toReserve_of_rule hrule (hs.sound.idle _ _ htx)
  have hget := fun j => getElem?_set_of_some htx tx' j
  rw [← hset] at hget
  refine ⟨Schema.sound_step hs.sound h, fun j tx₁ hj serial hserial => ?_, ?_⟩
  · rw [hget] at hj
    split at hj
    · obtain rfl := Option.some.inj hj
      obtain ⟨hdatabase, hold | hnew⟩ := htoReserve serial hserial
      · rw [hdatabase]
        exact hs.available _ _ htx serial hold
      · rw [hdatabase]
        exact hnew
    · rename_i hne
      have hstatus := hs.available j tx₁ hj serial hserial
      rcases database_of_rule hrule with hsame | ⟨hcommit, hview⟩
      · rw [hsame]
        exact hstatus
      · rw [hview]
        refine status_foldl_write hstatus fun hmem => ?_
        rw [hcommit] at hkeeps
        exact hkeeps tx htx serial hmem tx₁
          (List.mem_eraseIdx_iff_getElem?.mpr ⟨j, hne, hj⟩) hserial
  · intro j serial st db he tx₁ hj hreserves
    -- the transaction of an effect goes on as a call of the same function
    have hold : ∃ tx₀, s.transactions[j]? = some tx₀ ∧ tx₀.data.procedure = tx₁.data.procedure := by
      rw [hget] at hj
      split at hj
      · rename_i heq
        obtain rfl := Option.some.inj hj
        exact ⟨tx, heq ▸ htx, hprocedure.symm⟩
      · exact ⟨tx₁, hj, rfl⟩
    obtain ⟨tx₀, htx₀, hprocedure₀⟩ := hold
    rw [← hprocedure₀] at hreserves
    rcases effects_of_rule hrule _ he with he | ⟨row, hrow, heq⟩
    · exact hs.effects j serial st db he tx₀ htx₀ hreserves
    · obtain ⟨rfl, hrest⟩ := Prod.mk.inj heq
      obtain ⟨rfl, rfl⟩ := Prod.mk.inj hrest
      obtain rfl := Option.some.inj (htx.symm.trans htx₀)
      refine hs.available _ _ htx serial (mem_toReserve.mpr ⟨hreserves, Or.inl ?_⟩)
      exact List.mem_flatMap.mpr ⟨_, hrow, List.mem_singleton_self _⟩

/-- **What a committed call of `makeReservations` has marked was available**, as
committed when it was marked. -/
def ReservesAvailable (s : Postgres) : Prop :=
  ∀ (j : ℕ) (serial : String) (db : Database), (j, .setStatus serial .reserved, db) ∈ s.effects →
    ∀ tx, s.transactions[j]? = some tx → tx.data.procedure.Reserves → tx.stage = .committed →
      db.status serial = some .available

theorem reservesAvailable_of_keeps (db : Database) (procedures : List Procedure)
    {is : List (ServerInput (List ReservedRow))}
    (hkeeps : postgres.machine.Meets Keeps (start db procedures) is)
    (hrun : postgres.machine.run (start db procedures) is = some s) : ReservesAvailable s := by
  have hkept : Kept s := Machine.invariant_of_meets (I := Kept)
    (fun _ _ _ hs hk hstep => kept_step hs hk hstep) (kept_start db procedures) hkeeps hrun
  intro j serial db' he tx hj hreserves _
  exact hkept.effects j serial .reserved db' he tx hj hreserves

/-! ### A device breaks in between -/

/-- A reservation, and the report that the device is broken. -/
def reserveAndBreak : Postgres :=
  start oneAvailable [.makeReservations 1 "c" 0, .updateDeviceStatus "A" .broken]

/-- The report comes when the device is reserved. -/
def breaksAfter : List (ServerInput (List ReservedRow)) :=
  [.first 0 [⟨"A", "10.0.0.1", 8081⟩], .statement 0, .write 0 0, .statement 0, .write 0 0,
    .commit 0, .first 1 [], .statement 1, .write 1 0, .commit 1]

/-- The report comes when the device is looked up. -/
def breaksBetween : List (ServerInput (List ReservedRow)) :=
  [.first 0 [⟨"A", "10.0.0.1", 8081⟩], .first 1 [], .statement 1, .write 1 0, .commit 1,
    .statement 0, .write 0 0, .statement 0, .write 0 0, .commit 0]

/-- The second effect, with the status of the device at the moment, and the first
call. -/
def outlook (s : Postgres) :
    Option (ℕ × RowWrite × Option DeviceState) × Option (Procedure × Stage Statement RowWrite) :=
  (s.effects[1]?.map fun e => (e.1, e.2.1, e.2.2.status "A"),
    s.transactions[0]?.map fun tx => (tx.data.procedure, tx.stage))

set_option synthInstance.maxSize 512 in
theorem breaksBetween_run : (postgres.machine.run reserveAndBreak breaksBetween).map outlook =
    some (some (0, .setStatus "A" .reserved, some .broken),
      some (.makeReservations 1 "c" 0, .committed)) := by
  decide

theorem breaksAfter_kept : ∃ s, postgres.machine.run reserveAndBreak breaksAfter = some s ∧
    ReservesAvailable s := by
  obtain ⟨s, hs⟩ : ∃ s, postgres.machine.run reserveAndBreak breaksAfter = some s :=
    Option.isSome_iff_exists.mp (by decide)
  exact ⟨s, hs, reservesAvailable_of_keeps _ _ (by decide) hs⟩

/-- **A broken device is reserved**: it was available when it was looked up. -/
theorem broken_overwritten : ∃ s, postgres.machine.run reserveAndBreak breaksBetween = some s ∧
    ¬ReservesAvailable s := by
  obtain ⟨s, hs, houtlook⟩ := Option.map_eq_some_iff.mp breaksBetween_run
  obtain ⟨heffect, htransaction⟩ := Prod.mk.inj houtlook
  obtain ⟨⟨j, w, db⟩, he, heq⟩ := Option.map_eq_some_iff.mp heffect
  obtain ⟨tx, htx, hcommitted⟩ := Option.map_eq_some_iff.mp htransaction
  obtain ⟨rfl, hrest⟩ := Prod.mk.inj heq
  obtain ⟨rfl, hstatus⟩ := Prod.mk.inj hrest
  obtain ⟨hprocedure, hstage⟩ := Prod.mk.inj hcommitted
  refine ⟨s, hs, fun h => ?_⟩
  have havailable :=
    h 0 "A" db (List.mem_of_getElem? he) tx htx (by rw [hprocedure]; trivial) hstage
  rw [hstatus] at havailable
  cases havailable

end Postgres

end UsbipIce
