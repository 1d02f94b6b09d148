import UsbipIce.Control.Transactions

/-!
# Two reservations at once

`makeReservations` stages available devices without locking them. Two calls that
run side by side may so stage the same device although there are enough for both:
the second waits for the row that the first has marked, marks it again when the
first has committed, and then raises, since there is a reservation of the device
already (`UsbipIce.Postgres.second_aborts`).

Where the calls stage different devices nothing of this happens: no row that one
of them writes is written by another, so none waits, no reservation is there
already, and all commit. The invariant is `UsbipIce.Postgres.Clean`. Conversely,
what a call has staged it keeps, so that calls which commit with different devices
have staged different ones (`UsbipIce.Postgres.both_commit_iff`).
-/

namespace UsbipIce

open Lib Database ReadCommitted

/-! ### How many devices are available -/

namespace Database

/-- Changing some rows takes at most so many away. -/
theorem countP_le_countP_map {α : Type*} {p q : α → Bool} {f : α → α} (l : List α) :
    l.countP p ≤ (l.map fun a => if q a then f a else a).countP p + l.countP q := by
  induction l with
  | nil => exact Nat.le_refl _
  | cons a l ih =>
    rw [List.map_cons, List.countP_cons, List.countP_cons, List.countP_cons]
    cases hq : q a with
    | true =>
      simp only [if_true]
      split <;> split <;> omega
    | false =>
      simp only [Bool.false_eq_true, if_false]
      split <;> omega

/-- **A status that is written takes at most one available device away.** -/
theorem countAvailable_write (db : Database) (w : RowWrite) :
    db.countAvailable ≤ (db.write w).countAvailable + w.updated.length := by
  cases w with
  | setStatus serial st =>
    have hone : db.device.rows.countP (fun d => decide (d.serialId = serial)) ≤ 1 := by
      have hcount := List.nodup_iff_count_le_one.mp db.device.nodup serial
      rw [List.count_eq_countP, List.countP_map] at hcount
      exact hcount
    have hle :=
      countP_le_countP_map (p := fun d : DeviceRow => decide (d.deviceStatus = .available))
        (q := fun d => decide (d.serialId = serial)) (f := fun d => { d with deviceStatus := st })
        db.device.rows
    refine hle.trans (Nat.add_le_add_left ?_ _)
    exact hone
  | insert row =>
    have hdevice : (db.insertReservation row).device = db.device := by
      rw [insertReservation]
      split
      · split <;> rfl
      · rfl
    rw [countAvailable, countAvailable, Database.write, hdevice]
    exact Nat.le_add_right _ _
  | delete row => exact Nat.le_add_right _ _

theorem countAvailable_foldl_write (db : Database) (writes : List RowWrite) :
    db.countAvailable ≤
      (writes.foldl Database.write db).countAvailable +
        (writes.flatMap RowWrite.updated).length := by
  induction writes generalizing db with
  | nil => exact Nat.le_refl _
  | cons w writes ih =>
    have hw := countAvailable_write db w
    have hrest := ih (db.write w)
    rw [List.foldl_cons, List.flatMap_cons, List.length_append]
    omega

/-- A status that no write touches stays. -/
theorem status_foldl_write_of_not_mem {db : Database} {writes : List RowWrite} {serial : String}
    (hno : serial ∉ writes.flatMap RowWrite.updated) :
    (writes.foldl Database.write db).status serial = db.status serial := by
  induction writes generalizing db with
  | nil => rfl
  | cons w writes ih =>
    rw [List.flatMap_cons, List.mem_append, not_or] at hno
    rw [List.foldl_cons, ih hno.2, status_write_of_ne]
    exact fun hkey => hno.1 (RowWrite.mem_updated_of_key hkey)

/-- A reservation is there already, or a write has added it. -/
theorem isReserved_write {db : Database} {w : RowWrite} {serial : String}
    (h : (db.write w).IsReserved serial) : db.IsReserved serial ∨ serial ∈ w.booked := by
  cases w with
  | setStatus serial' st => exact Or.inl h
  | insert row =>
    rw [Database.write, insertReservation] at h
    split at h
    · split at h
      · exact Or.inl h
      · rename_i reservations hins
        rw [IsReserved, Table.keys, Table.insert?_rows hins, List.map_append] at h
        exact List.mem_append.mp h
    · exact Or.inl h
  | delete row =>
    obtain ⟨r, hr, rfl⟩ := Table.mem_keys.mp h
    exact Or.inl (Table.key_mem_keys (Table.mem_delete.mp hr).1)

theorem isReserved_foldl_write {db : Database} {writes : List RowWrite} {serial : String}
    (h : (writes.foldl Database.write db).IsReserved serial) :
    db.IsReserved serial ∨ serial ∈ writes.flatMap RowWrite.booked := by
  induction writes generalizing db with
  | nil => exact Or.inl h
  | cons w writes ih =>
    rw [List.flatMap_cons, List.mem_append]
    rcases ih h with h | h
    · exact (isReserved_write h).imp_right Or.inl
    · exact Or.inr (Or.inr h)

end Database

namespace Postgres

/-! ### What the calls have staged -/

/-- The devices that a call has staged. -/
def staged (tx : CallTransaction) : List String := tx.data.res.map ReservedRow.serial

/-- The condition: no device is staged that another call has staged. -/
def Apart (s : Postgres) : ServerInput (List ReservedRow) → Prop
  | .first t res => ∀ tx ∈ s.transactions.eraseIdx t, ∀ serial ∈ staged tx,
      serial ∉ res.map ReservedRow.serial
  | .statement _ | .write .. | .resume _ | .commit _ | .kill _ => True

instance (s : Postgres) : DecidablePred (Apart s)
  | .first .. => by
    unfold Apart
    infer_instance
  | .statement _ | .write .. | .resume _ | .commit _ | .kill _ => inferInstanceAs (Decidable True)

variable {s s' : Postgres} {t : ℕ} {tx tx' : CallTransaction}
  {i : ServerInput (List ReservedRow)}

/-- What a transaction is later: what it has staged it keeps, and an end is an
end. -/
structure Evolves (tx tx' : CallTransaction) : Prop where
  procedure : tx'.data.procedure = tx.data.procedure
  begun : tx.stage ≠ .start → tx'.stage ≠ .start
  res : tx.stage ≠ .start → tx'.data.res = tx.data.res
  aborted : tx.stage = .aborted → tx'.stage = .aborted

theorem Evolves.refl (tx : CallTransaction) : Evolves tx tx := ⟨rfl, id, fun _ => rfl, id⟩

theorem Evolves.trans {tx'' : CallTransaction} (h : Evolves tx tx') (h' : Evolves tx' tx'') :
    Evolves tx tx'' where
  procedure := h'.procedure.trans h.procedure
  begun hstage := h'.begun (h.begun hstage)
  res hstage := (h'.res (h.begun hstage)).trans (h.res hstage)
  aborted hstage := h'.aborted (h.aborted hstage)

theorem Evolves.staged (h : Evolves tx tx') (hbegun : tx.stage ≠ .start) :
    staged tx' = staged tx := by
  rw [Postgres.staged, h.res hbegun, Postgres.staged]

theorem evolves_of_rule (htx : s.transactions[t]? = some tx) (h : postgres.Rule s t tx i s') :
    ∃ tx', s'.transactions = s.transactions.set t tx' ∧ tx'.stage ≠ .start ∧ Evolves tx tx' := by
  obtain ⟨-, haborted, tx', hset, hbegun, hdata⟩ := h.moves
  obtain ⟨tx₂, hset₂, hkeeps⟩ := keeps_of_rule h
  obtain rfl := eq_of_set_eq htx (hset.symm.trans hset₂)
  refine ⟨tx', hset, hbegun, hkeeps.procedure, fun _ => hbegun, fun hstage => ?_,
    fun hstage => absurd hstage haborted⟩
  rcases hdata with hstart | hsame | ⟨db, statement, hafter⟩
  · exact absurd hstart hstage
  · rw [hsame]
  · rw [hafter]
    exact res_after db statement _

theorem evolves_of_step (h : postgres.step s i = some s') (j : ℕ)
    (hj : s.transactions[j]? = some tx) :
    ∃ tx', s'.transactions[j]? = some tx' ∧ Evolves tx tx' := by
  obtain ⟨tx₀, htx, hrule⟩ := Schema.rule_of_step h
  obtain ⟨tx₁, hset, -, hevolves⟩ := evolves_of_rule htx hrule
  rw [hset, getElem?_set_of_some htx]
  split
  · rename_i heq
    obtain rfl := Option.some.inj (htx.symm.trans (heq ▸ hj))
    exact ⟨tx₁, rfl, hevolves⟩
  · exact ⟨tx, hj, Evolves.refl tx⟩

theorem evolves_of_run {is : List (ServerInput (List ReservedRow))}
    (h : postgres.machine.run s is = some s') (j : ℕ) (hj : s.transactions[j]? = some tx) :
    ∃ tx', s'.transactions[j]? = some tx' ∧ Evolves tx tx' := by
  induction is generalizing s tx with
  | nil =>
    obtain rfl := Option.some.inj h
    exact ⟨tx, hj, Evolves.refl tx⟩
  | cons i is ih =>
    obtain ⟨u, hu, hrest⟩ := Machine.run_cons_eq_some.mp h
    obtain ⟨tx₁, hj₁, hevolves₁⟩ := evolves_of_step hu j hj
    obtain ⟨tx₂, hj₂, hevolves₂⟩ := ih hrest hj₁
    exact ⟨tx₂, hj₂, hevolves₁.trans hevolves₂⟩

/-- Only `makeReservations` is called, and nothing is staged before the first
statement. -/
structure Bookings (s : Postgres) : Prop where
  reserves : ∀ tx ∈ s.transactions, tx.data.procedure.Reserves
  first : ∀ tx ∈ s.transactions, tx.stage = .start → tx.data.res = []

theorem bookings_start (db : Database) {procedures : List Procedure}
    (hreserves : ∀ procedure ∈ procedures, procedure.Reserves) :
    Bookings (start db procedures) := by
  have hcalls : ∀ tx ∈ (start db procedures).transactions, ∃ procedure ∈ procedures,
      tx = ⟨procedure.call, .start, []⟩ := by
    intro tx htx
    obtain ⟨j, hj⟩ := List.mem_iff_getElem?.mp htx
    obtain ⟨c, hc, rfl⟩ := Schema.getElem?_start hj
    obtain ⟨procedure, hprocedure, rfl⟩ := List.mem_map.mp (List.mem_of_getElem? hc)
    exact ⟨procedure, hprocedure, rfl⟩
  refine ⟨fun tx htx => ?_, fun tx htx _ => ?_⟩
  · obtain ⟨procedure, hprocedure, rfl⟩ := hcalls tx htx
    exact hreserves procedure hprocedure
  · obtain ⟨procedure, -, rfl⟩ := hcalls tx htx
    rfl

theorem bookings_step (hs : Bookings s) (h : postgres.step s i = some s') : Bookings s' := by
  obtain ⟨tx, htx, hrule⟩ := Schema.rule_of_step h
  obtain ⟨tx₁, hset, hbegun, hevolves⟩ := evolves_of_rule htx hrule
  refine ⟨fun tx' htx' => ?_, fun tx' htx' hstart => ?_⟩
  · rw [hset] at htx'
    rcases List.mem_or_eq_of_mem_set htx' with hold | rfl
    · exact hs.reserves tx' hold
    · rw [hevolves.procedure]
      exact hs.reserves tx (List.mem_of_getElem? htx)
  · rw [hset] at htx'
    rcases List.mem_or_eq_of_mem_set htx' with hold | rfl
    · exact hs.first tx' hold hstart
    · exact absurd hstart hbegun

/-- **Calls that end up with different devices have staged different ones**,
unless one of them has failed. -/
theorem meets_apart {is : List (ServerInput (List ReservedRow))} (hs : Bookings s)
    (h : postgres.machine.run s is = some s')
    (hcommitted : ∀ (j : ℕ) (tx : CallTransaction), s'.transactions[j]? = some tx →
      tx.stage ≠ .aborted)
    (hdisjoint : ∀ (j k : ℕ) (tx tx' : CallTransaction), s'.transactions[j]? = some tx →
      s'.transactions[k]? = some tx' → j ≠ k → (staged tx).Disjoint (staged tx')) :
    postgres.machine.Meets Apart s is := by
  induction is generalizing s with
  | nil => trivial
  | cons i is ih =>
    obtain ⟨u, hu, hrest⟩ := Machine.run_cons_eq_some.mp h
    refine ⟨?_, fun u' hu' => ?_⟩
    · cases i with
      | first t res =>
        intro tx htx serial hserial hpicked
        obtain ⟨j, hne, hj⟩ := List.mem_eraseIdx_iff_getElem?.mp htx
        -- the other call has begun, so it keeps what it has staged
        have hbegun : tx.stage ≠ .start := by
          intro hstart
          rw [staged, hs.first tx (List.mem_of_getElem? hj) hstart] at hserial
          cases hserial
        obtain ⟨tx₂, hj₂, hevolves₂⟩ := evolves_of_run h j hj
        obtain ⟨tx₀, htx₀, hrule⟩ := Schema.rule_of_step hu
        have hmoved : ∀ tx₁, u.transactions = s.transactions.set t tx₁ →
            ∃ tx₃, s'.transactions[t]? = some tx₃ ∧ Evolves tx₁ tx₃ := by
          intro tx₁ hset
          refine evolves_of_run hrest t ?_
          rw [hset]
          exact (getElem?_set_of_some htx₀ tx₁ t).trans (if_pos rfl)
        cases hrule with
        | raises hstage hfirst =>
          obtain ⟨tx₃, ht₃, hevolves₃⟩ := hmoved _ rfl
          exact hcommitted t tx₃ ht₃ (hevolves₃.aborted rfl)
        | first hstage hfirst =>
          obtain ⟨tx₃, ht₃, hevolves₃⟩ := hmoved _ rfl
          have hres := hevolves₃.res nofun
          refine hdisjoint j t tx₂ tx₃ hj₂ ht₃ hne (a := serial) ?_ ?_
          · rw [staged, hevolves₂.res hbegun]
            exact hserial
          · obtain ⟨-, -, hnone⟩ | ⟨-, -, rfl, -⟩ :=
              first_of_reserves (hs.reserves _ (List.mem_of_getElem? htx₀)) hfirst
            · cases hnone
            · rw [staged, hres]
              exact hpicked
        | fails htakes => cases htakes
        | skips htakes => cases htakes
        | passes htakes => cases htakes
      | statement | write | resume | commit | kill => trivial
    · obtain rfl : u = u' := Option.some.inj (hu.symm.trans hu')
      exact ih (bookings_step hs hu) hrest

/-! ### Calls that do not meet -/

/-- The devices whose statuses a transaction writes. -/
def updates (tx : CallTransaction) : List String :=
  Schema.work RowWrite.updated Statement.updated tx

/-- The devices whose reservations a transaction writes. -/
def bookings (tx : CallTransaction) : List String :=
  Schema.work RowWrite.booked Statement.booked tx

/-- Neither waiting nor failed. -/
def Unhindered : Stage Statement RowWrite → Prop
  | .start | .writing .. | .committed => True
  | .waiting .. | .aborted => False

/-- **A call that nothing hinders**: it writes about the devices that it has
staged, as many as were asked for, each once, none of them reserved in `db`. -/
structure Proper (db : Database) (tx : CallTransaction) : Prop where
  amount : 0 ≤ tx.data.procedure.amount
  unhindered : Unhindered tx.stage
  length : tx.stage ≠ .start → (tx.data.res.length : ℤ) = tx.data.procedure.amount
  nodup : (staged tx).Nodup
  free : ∀ serial ∈ staged tx, ¬db.IsReserved serial
  updates : (updates tx).Subperm (staged tx)
  bookings : (bookings tx).Subperm (staged tx)

/-- The devices that a call is still to take. -/
def pending (tx : CallTransaction) : ℕ :=
  match tx.stage with
  | .start | .writing .. | .waiting .. | .aborted => tx.data.procedure.amount.toNat
  | .committed => 0

/-- **The invariant**, of calls on `db` that have staged different devices. -/
structure Clean (db : Database) (s : Postgres) : Prop where
  sound : postgres.Sound s
  reserves : Bookings s
  proper : ∀ (j : ℕ) (tx : CallTransaction), s.transactions[j]? = some tx → Proper db tx
  apart : ∀ (j k : ℕ) (tx tx' : CallTransaction), s.transactions[j]? = some tx →
    s.transactions[k]? = some tx' → j ≠ k → (staged tx).Disjoint (staged tx')
  /-- Reservations are added by calls that have committed. -/
  reserved : ∀ serial, s.database.IsReserved serial → db.IsReserved serial ∨
    ∃ (j : ℕ) (tx : CallTransaction), s.transactions[j]? = some tx ∧ tx.stage = .committed ∧
      serial ∈ staged tx
  available : ∀ serial, s.database.status serial = some .available → ¬db.IsReserved serial
  /-- There are enough for the calls that are still to commit. -/
  enough : (s.transactions.map pending).sum ≤ s.database.countAvailable

/-- Writes of the same row are about the same device. -/
theorem exists_mem_of_key_eq {w w' : RowWrite} (h : w.key = w'.key) :
    ∃ serial, serial ∈ w.updated ∧ serial ∈ w'.updated ∨
      serial ∈ w.booked ∧ serial ∈ w'.booked := by
  cases hkey : w'.key with
  | device serial =>
    exact ⟨serial,
      Or.inl ⟨RowWrite.mem_updated_of_key (h.trans hkey), RowWrite.mem_updated_of_key hkey⟩⟩
  | reservation serial =>
    exact
      ⟨serial, Or.inr ⟨RowWrite.mem_booked_of_key (h.trans hkey), RowWrite.mem_booked_of_key hkey⟩⟩

variable {db : Database}

/-- **No row that a call writes is held by another.** -/
theorem Clean.holder_eq_none (hs : Clean db s) (htx : s.transactions[t]? = some tx) {row : RowWrite}
    (hrow : row ∈ tx.stage.rows) : postgres.holder s t (postgres.key row) = none := by
  refine Schema.holder_eq_none.mpr fun j tx' hj hne w hw hkey => ?_
  obtain ⟨serial, ⟨hw', hrow'⟩ | ⟨hw', hrow'⟩⟩ := exists_mem_of_key_eq hkey
  · exact hs.apart j t tx' tx hj htx hne
      ((hs.proper j tx' hj).updates.subset (Schema.mem_work_of_mem_writes hw hw'))
      ((hs.proper t tx htx).updates.subset (Schema.mem_work_of_mem_rows hrow hrow'))
  · exact hs.apart j t tx' tx hj htx hne
      ((hs.proper j tx' hj).bookings.subset (Schema.mem_work_of_mem_writes hw hw'))
      ((hs.proper t tx htx).bookings.subset (Schema.mem_work_of_mem_rows hrow hrow'))

/-- Only a reservation that is there already makes a write fail. -/
theorem check_eq_fails {db : Database} {w : RowWrite} (h : w.check db = .fails) :
    ∃ row, w = .insert row ∧ db.IsReserved row.device := by
  cases w with
  | setStatus serial st => cases h
  | insert row =>
    rw [RowWrite.check] at h
    split at h
    · exact ⟨row, rfl, ‹_›⟩
    · cases h
  | delete row =>
    rw [RowWrite.check] at h
    split at h <;> cases h

/-- **No device that a call reserves is reserved already.** -/
theorem Clean.check_ne_fails (hs : Clean db s) (htx : s.transactions[t]? = some tx) {w : RowWrite}
    (hw : w ∈ tx.stage.rows) : postgres.check (postgres.view s.database tx) w ≠ .fails := by
  intro hfails
  obtain ⟨row, rfl, hreserved⟩ := check_eq_fails hfails
  have hproper := hs.proper t tx htx
  have hserial : row.device ∈ staged tx :=
    hproper.bookings.subset (Schema.mem_work_of_mem_rows hw List.mem_cons_self)
  rcases isReserved_foldl_write hreserved with hcommitted | hown
  · rcases hs.reserved _ hcommitted with hold | ⟨j, tx', hj, hstage, hmem⟩
    · exact hproper.free _ hserial hold
    · by_cases hne : j = t
      · obtain rfl := Option.some.inj (htx.symm.trans (hne ▸ hj))
        rw [hstage] at hw
        cases hw
      · exact hs.apart j t tx' tx hj htx hne hmem hserial
  · -- it would be among the bookings twice
    have hnodup : (bookings tx).Nodup := by
      obtain ⟨l, hperm, hsub⟩ := hproper.bookings
      exact hperm.nodup_iff.mp (hproper.nodup.sublist hsub)
    refine List.disjoint_of_nodup_append hnodup hown (List.mem_append_left _ ?_)
    exact List.mem_flatMap.mpr ⟨_, hw, List.mem_cons_self⟩

/-- **Nothing hinders a call that has begun**, and only its commit changes what
is committed. -/
theorem Clean.unhindered_of_rule (hs : Clean db s) (htx : s.transactions[t]? = some tx)
    (h : postgres.Rule s t tx i s') :
    ∃ tx', s'.transactions = s.transactions.set t tx' ∧ Unhindered tx'.stage ∧
      (tx'.stage ≠ .committed ∧ s'.database = s.database ∨
        tx'.stage = .committed ∧ tx.stage ≠ .start ∧
          s'.database = postgres.view s.database tx) := by
  have hproper := hs.proper t tx htx
  cases h with
  | raises hstage hfirst =>
    obtain ⟨hneg, -, -⟩ | ⟨-, -, -, clientName, now, hsome⟩ :=
      first_of_reserves (hs.reserves.reserves tx (List.mem_of_getElem? htx)) hfirst
    · exact absurd hproper.amount (not_le.mpr hneg)
    · cases hsome
  | first hstage hfirst => exact ⟨_, rfl, trivial, Or.inl ⟨nofun, rfl⟩⟩
  | statement hstage => exact ⟨_, rfl, trivial, Or.inl ⟨nofun, rfl⟩⟩
  | waits hstage hk hheld =>
    have hrow := List.mem_of_getElem? hk
    rw [hs.holder_eq_none htx (by rw [hstage]; exact hrow)] at hheld
    cases hheld
  | fails htakes hfree hcheck =>
    exact absurd hcheck (hs.check_ne_fails htx (htakes.rows_perm.symm.subset List.mem_cons_self))
  | skips htakes hfree hcheck => exact ⟨_, rfl, trivial, Or.inl ⟨nofun, rfl⟩⟩
  | passes htakes hfree hcheck => exact ⟨_, rfl, trivial, Or.inl ⟨nofun, rfl⟩⟩
  | commits hstage => exact ⟨_, rfl, trivial, Or.inr ⟨rfl, by rw [hstage]; exact nofun, rfl⟩⟩
  | killed hstage hdeadlock =>
    have hunhindered := hproper.unhindered
    rw [hstage] at hunhindered
    cases hunhindered

/-- A call goes on as it was. -/
theorem Proper.next (hproper : Proper db tx) (hbegun : tx.stage ≠ .start)
    (hevolves : Evolves tx tx')
    (hunhindered : Unhindered tx'.stage)
    (hupdates : (Postgres.updates tx').Subperm (Postgres.updates tx))
    (hbookings : (Postgres.bookings tx').Subperm (Postgres.bookings tx)) : Proper db tx' := by
  have hstaged := hevolves.staged hbegun
  refine ⟨?_, hunhindered, fun _ => ?_, ?_, ?_, ?_, ?_⟩
  · rw [hevolves.procedure]
    exact hproper.amount
  · rw [hevolves.res hbegun, hevolves.procedure]
    exact hproper.length hbegun
  · rw [hstaged]
    exact hproper.nodup
  · rw [hstaged]
    exact hproper.free
  · rw [hstaged]
    exact hupdates.trans hproper.updates
  · rw [hstaged]
    exact hbookings.trans hproper.bookings

theorem pending_of_ne (hstage : tx.stage ≠ .committed) :
    pending tx = tx.data.procedure.amount.toNat := by
  rw [pending]
  split
  all_goals first | rfl | exact absurd ‹_› hstage

/-- There are as many devices as a call that has not committed asks for. -/
theorem Clean.amount_le (hs : Clean db s) (htx : s.transactions[t]? = some tx)
    (hstage : tx.stage ≠ .committed) :
    tx.data.procedure.amount.toNat ≤ s.database.available.length := by
  have hsum := sum_map_eraseIdx pending htx
  have henough := hs.enough
  have hpending := pending_of_ne hstage
  rw [length_available]
  omega

/-- **A call stages as many devices as it asks for**, all unreserved. -/
theorem Clean.proper_of_first (hs : Clean db s) (htx : s.transactions[t]? = some tx)
    (hstart : tx.stage = .start) (h : postgres.Rule s t tx i s') :
    ∃ res tx', i = .first t res ∧ s'.transactions = s.transactions.set t tx' ∧ Proper db tx' ∧
      staged tx' = res.map ReservedRow.serial := by
  obtain ⟨tx₂, hset₂, hunhindered, -⟩ := hs.unhindered_of_rule htx h
  have hreserves := hs.reserves.reserves tx (List.mem_of_getElem? htx)
  have hclosed : ¬tx.stage.Open := by
    rw [hstart]
    exact id
  have hnil : tx.writes = [] := hs.sound.idle t tx htx hclosed
  cases h with
  | first hstage hfirst =>
    rename_i res data statements
    rw [view_of_nil _ hnil] at hfirst
    obtain ⟨-, -, hnone⟩ | ⟨hamount, hlimit, rfl, clientName, now, hsome⟩ :=
      first_of_reserves hreserves hfirst
    · cases hnone
    · obtain rfl := Option.some.inj hsome
      have hlength : res.length = tx.data.procedure.amount.toNat := by
        rw [hlimit.2]
        exact Nat.min_eq_left (hs.amount_le htx (by rw [hstart]; exact nofun))
      refine ⟨res, _, rfl, rfl, ⟨hamount, trivial, fun _ => ?_,
        hlimit.nodup_map (nodup_available_serials _), ?_, ?_, ?_⟩, rfl⟩
      · rw [hlength]
        exact Int.toNat_of_nonneg hamount
      · intro serial hserial
        obtain ⟨r, hr, rfl⟩ := List.mem_map.mp hserial
        exact hs.available _ (status_of_mem_available (hlimit.mem hr))
      · refine List.Perm.subperm (List.Perm.of_eq ?_)
        rw [Postgres.updates, Schema.work, hnil]
        simp [Stage.rows, Stage.statements, reserveStatements, Statement.updated, staged]
      · refine List.Perm.subperm (List.Perm.of_eq ?_)
        rw [Postgres.bookings, Schema.work, hnil]
        simp [Stage.rows, Stage.statements, reserveStatements, Statement.booked, staged,
          newReservations]
  | raises hstage hfirst =>
    obtain rfl := eq_of_set_eq htx hset₂
    cases hunhindered
  | statement hstage => rw [hstart] at hstage; cases hstage
  | waits hstage hk hheld => rw [hstart] at hstage; cases hstage
  | fails htakes hfree hcheck => exact absurd htakes.isOpen hclosed
  | skips htakes hfree hcheck => exact absurd htakes.isOpen hclosed
  | passes htakes hfree hcheck => exact absurd htakes.isOpen hclosed
  | commits hstage => rw [hstart] at hstage; cases hstage
  | killed hstage hdeadlock => rw [hstart] at hstage; cases hstage

/-- One call moves, and stages no device of another. -/
theorem Clean.set (hs : Clean db s) (htx : s.transactions[t]? = some tx)
    (hset : s'.transactions = s.transactions.set t tx') (hsound : postgres.Sound s')
    (hreserves : Bookings s') (hcommitted : tx.stage ≠ .committed) (hproper : Proper db tx')
    (happart : ∀ (j : ℕ) (tx₁ : CallTransaction), s.transactions[j]? = some tx₁ → j ≠ t →
      (staged tx₁).Disjoint (staged tx'))
    (hreserved : ∀ serial, s'.database.IsReserved serial → s.database.IsReserved serial ∨
      tx'.stage = .committed ∧ serial ∈ staged tx')
    (havailable : ∀ serial, s'.database.status serial = some .available → ¬db.IsReserved serial)
    (henough : (s'.transactions.map pending).sum ≤ s'.database.countAvailable) : Clean db s' := by
  have hget := fun j => getElem?_set_of_some htx tx' j
  rw [← hset] at hget
  refine ⟨hsound, hreserves, fun j tx₁ hj => ?_, fun j k tx₁ tx₂ hj hk hne => ?_,
    fun serial hserial => ?_, havailable, henough⟩
  · rw [hget] at hj
    split at hj
    · obtain rfl := Option.some.inj hj
      exact hproper
    · exact hs.proper j tx₁ hj
  · by_cases hjt : j = t
    · have hkt : k ≠ t := fun hkt => hne (hjt.trans hkt.symm)
      rw [hget, if_pos hjt] at hj
      rw [hget, if_neg hkt] at hk
      obtain rfl := Option.some.inj hj
      exact (happart k tx₂ hk hkt).symm
    · rw [hget, if_neg hjt] at hj
      rw [hget] at hk
      split at hk
      · obtain rfl := Option.some.inj hk
        exact happart j tx₁ hj hjt
      · exact hs.apart j k tx₁ tx₂ hj hk hne
  · rcases hreserved serial hserial with hserial | ⟨hstage, hmem⟩
    · refine (hs.reserved serial hserial).imp_right ?_
      rintro ⟨j, tx₁, hj, hstage, hmem⟩
      refine ⟨j, tx₁, ?_, hstage, hmem⟩
      rw [hget, if_neg, hj]
      rintro rfl
      obtain rfl := Option.some.inj (htx.symm.trans hj)
      exact hcommitted hstage
    · exact Or.inr ⟨t, tx', (hget t).trans (if_pos rfl), hstage, hmem⟩

/-- What a commit takes away are devices that the call has staged. -/
theorem Clean.enough_of_commit (hs : Clean db s) (htx : s.transactions[t]? = some tx)
    (hbegun : tx.stage ≠ .start) (hcommitted : tx.stage ≠ .committed)
    (hcommitted' : tx'.stage = .committed) :
    ((s.transactions.set t tx').map pending).sum ≤
      (postgres.view s.database tx).countAvailable := by
  have hproper := hs.proper t tx htx
  have hcount := countAvailable_foldl_write s.database tx.writes
  have hwrites : (tx.writes.flatMap RowWrite.updated).length ≤ pending tx := by
    have hle := hproper.updates.length_le
    have hlength := hproper.length hbegun
    rw [Postgres.updates, Schema.work, List.length_append] at hle
    rw [staged, List.length_map] at hle
    rw [pending_of_ne hcommitted]
    omega
  have hsum := sum_map_eraseIdx pending htx
  have hsum' := sum_map_set pending htx tx'
  have hzero : pending tx' = 0 := by
    rw [pending, hcommitted']
  have henough := hs.enough
  rw [Schema.view]
  show _ ≤ (tx.writes.foldl Database.write s.database).countAvailable
  omega

/-- **Calls that stage different devices do not meet.** -/
theorem clean_step (hs : Clean db s) (happart : Apart s i) (h : postgres.step s i = some s') :
    Clean db s' := by
  obtain ⟨tx, htx, hrule⟩ := Schema.rule_of_step h
  have hsound := Schema.sound_step hs.sound h
  have hreserves := bookings_step hs.reserves h
  obtain ⟨hcommitted, -, -⟩ := hrule.moves
  obtain ⟨tx', hset, hbegun', hevolves⟩ := evolves_of_rule htx hrule
  obtain ⟨tx₁, hset₁, hunhindered, hdatabase⟩ := hs.unhindered_of_rule htx hrule
  obtain rfl := eq_of_set_eq htx (hset.symm.trans hset₁)
  have hproper : Proper db tx' ∧ ∀ (j : ℕ) (tx₁ : CallTransaction), s.transactions[j]? = some tx₁ →
      j ≠ i.transaction → (staged tx₁).Disjoint (staged tx') := by
    by_cases hstart : tx.stage = .start
    · -- the first statement stages devices that no other call has staged
      obtain ⟨res, tx₂, hfirst, hset₂, hproper, hstaged⟩ := hs.proper_of_first htx hstart hrule
      obtain rfl := eq_of_set_eq htx (hset.symm.trans hset₂)
      refine ⟨hproper, fun j tx₁ hj hne serial hserial hserial' => ?_⟩
      rw [hstaged] at hserial'
      rw [hfirst] at happart
      exact happart tx₁ (List.mem_eraseIdx_iff_getElem?.mpr ⟨j, hne, hj⟩) serial hserial hserial'
    · obtain ⟨tx₂, hset₂, hupdates⟩ := hrule.work_subperm updated_rows hstart
      obtain rfl := eq_of_set_eq htx (hset.symm.trans hset₂)
      obtain ⟨tx₃, hset₃, hbookings⟩ := hrule.work_subperm booked_rows hstart
      obtain rfl := eq_of_set_eq htx (hset.symm.trans hset₃)
      refine ⟨(hs.proper _ tx htx).next hstart hevolves hunhindered hupdates hbookings,
        fun j tx₁ hj hne => ?_⟩
      rw [hevolves.staged hstart]
      exact hs.apart j _ tx₁ tx hj htx hne
  refine hs.set htx hset hsound hreserves hcommitted hproper.1 hproper.2 ?_ ?_ ?_
  all_goals rcases hdatabase with ⟨hopen, hsame⟩ | ⟨hstage, hbegun, hview⟩
  · rw [hsame]
    exact fun serial hserial => Or.inl hserial
  · rw [hview]
    intro serial hserial
    refine (isReserved_foldl_write hserial).imp_right fun hmem => ⟨hstage, ?_⟩
    rw [hevolves.staged hbegun]
    exact (hs.proper _ tx htx).bookings.subset (List.mem_append_left _ hmem)
  · rw [hsame]
    exact hs.available
  · rw [hview]
    intro serial hstatus
    by_cases hmem : serial ∈ tx.writes.flatMap RowWrite.updated
    · have hold := hs.proper _ tx htx
      exact hold.free serial (hold.updates.subset (List.mem_append_left _ hmem))
    · exact hs.available serial ((status_foldl_write_of_not_mem hmem).symm.trans hstatus)
  · have hpending : pending tx' = pending tx := by
      rw [pending_of_ne hopen, pending_of_ne hcommitted, hevolves.procedure]
    rw [hsame, hset, map_set_of_eq htx hpending]
    exact hs.enough
  · rw [hset, hview]
    exact hs.enough_of_commit htx hbegun hcommitted hstage

@[simp] theorem getElem?_start {procedures : List Procedure} {j : ℕ} :
    (start db procedures).transactions[j]? =
      procedures[j]?.map fun procedure => ⟨procedure.call, .start, []⟩ := by
  rw [start, Server.start, List.getElem?_map, List.getElem?_map, Option.map_map]
  rfl

theorem clean_start {procedures : List Procedure}
    (hreserves : ∀ procedure ∈ procedures, procedure.Reserves ∧ 0 ≤ procedure.amount)
    (hfree : ∀ serial, db.status serial = some .available → ¬db.IsReserved serial)
    (henough : (procedures.map fun procedure => procedure.amount.toNat).sum ≤ db.countAvailable) :
    Clean db (start db procedures) := by
  have hcall : ∀ (j : ℕ) (tx : CallTransaction), (start db procedures).transactions[j]? = some tx →
      ∃ procedure ∈ procedures, tx = ⟨procedure.call, .start, []⟩ := by
    intro j tx hj
    rw [getElem?_start] at hj
    obtain ⟨procedure, hprocedure, rfl⟩ := Option.map_eq_some_iff.mp hj
    exact ⟨procedure, List.mem_of_getElem? hprocedure, rfl⟩
  refine ⟨Schema.sound_start _ _, bookings_start db fun procedure h => (hreserves procedure h).1,
    fun j tx hj => ?_, fun j k tx tx' hj hk hne => ?_,
    fun serial hserial => Or.inl hserial, hfree, ?_⟩
  · obtain ⟨procedure, hmem, rfl⟩ := hcall j tx hj
    exact ⟨(hreserves procedure hmem).2, trivial, fun hno => absurd rfl hno, List.nodup_nil, nofun,
      List.nil_subperm, List.nil_subperm⟩
  · obtain ⟨procedure, -, rfl⟩ := hcall j tx hj
    exact List.disjoint_nil_left _
  · rw [start, Server.start, List.map_map, List.map_map]
    exact henough

/-! ### A run ends, and how -/

/-- `makeReservations` can begin at any time. -/
theorem exists_first (db : Database) {c : Call} (hreserves : c.procedure.Reserves) :
    ∃ res c' statements, c.first db res = some (c', statements) := by
  refine ⟨db.available.take c.procedure.amount.toNat, ?_⟩
  obtain ⟨amount, clientName, now, hprocedure⟩ := hreserves.exists_eq
  rw [Call.first.eq_def, hprocedure]
  simp only
  split
  · exact ⟨_, _, rfl⟩
  · rw [if_pos]
    · exact ⟨_, _, rfl⟩
    · exact isLimit_take _ _

/-- **Where nothing can go on, everything is committed.** -/
theorem Clean.committed_of_final (hs : Clean db s) (hfinal : ∀ i, postgres.step s i = none)
    (htx : s.transactions[t]? = some tx) : tx.stage = .committed := by
  have hno : ¬∃ i s', postgres.step s i = some s' := by
    rintro ⟨i, s', hstep⟩
    rw [hfinal i] at hstep
    cases hstep
  have hunhindered := (hs.proper t tx htx).unhindered
  cases hstage : tx.stage with
  | start =>
    obtain ⟨res, c, statements, hfirst⟩ := exists_first (postgres.view s.database tx)
      (hs.reserves.reserves tx (List.mem_of_getElem? htx))
    exact absurd (Schema.exists_step_of_start htx hstage hfirst) hno
  | writing rows statements => exact absurd (Schema.exists_step_of_writing htx hstage) hno
  | waiting row rows statements =>
    rw [hstage] at hunhindered
    cases hunhindered
  | committed => rfl
  | aborted =>
    rw [hstage] at hunhindered
    cases hunhindered

/-- A row is either of a device or of a reservation. -/
theorem length_eq_updated_add_booked (rows : List RowWrite) :
    rows.length =
      (rows.flatMap RowWrite.updated).length + (rows.flatMap RowWrite.booked).length := by
  induction rows with
  | nil => rfl
  | cons row rows ih =>
    rw [List.flatMap_cons, List.flatMap_cons, List.length_append, List.length_append,
      List.length_cons, ih]
    cases row with
    | setStatus serial st =>
      simp only [RowWrite.updated, RowWrite.booked, List.length_singleton, List.length_nil]
      omega
    | insert row =>
      simp only [RowWrite.updated, RowWrite.booked, List.length_singleton, List.length_nil]
      omega
    | delete row =>
      simp only [RowWrite.updated, RowWrite.booked, List.length_singleton, List.length_nil]
      omega

/-- A call of `makeReservations` takes at most four steps for each device, and
four more. -/
def budget : postgres.Budget fun c : Call => c.procedure.Reserves where
  first c := 4 * c.procedure.amount.toNat + 4
  statement st := 2 * (st.updated.length + st.booked.length) + 1
  first_pos c _ := Nat.succ_pos _
  first_le db c res c' statements hreserves hfirst := by
    obtain ⟨-, -, hnone⟩ | ⟨-, hlimit, -, clientName, now, hsome⟩ :=
      first_of_reserves hreserves hfirst
    · cases hnone
    · obtain rfl := Option.some.inj hsome
      have hlength : res.length ≤ c.procedure.amount.toNat := by
        rw [hlimit.2]
        exact Nat.min_le_left _ _
      simp only [reserveStatements, Statement.updated, Statement.booked, newReservations,
        List.map_cons, List.map_nil, List.sum_cons, List.sum_nil, List.length_map, List.length_nil]
      omega
  rows_le db st := by
    have hlength := length_eq_updated_add_booked (st.rows db)
    have hupdated := (updated_rows db st).length_le
    have hbooked := (booked_rows db st).length_le
    show 2 * (st.rows db).length + 1 ≤ _
    omega

/-- Both calls have committed, with different devices, as many as they asked
for. -/
def Served (s : Postgres) (a₁ a₂ : ℤ) : Prop :=
  ∃ tx₁ tx₂, s.transactions = [tx₁, tx₂] ∧ tx₁.stage = .committed ∧ tx₂.stage = .committed ∧
    (tx₁.data.res.length : ℤ) = a₁ ∧ (tx₂.data.res.length : ℤ) = a₂ ∧
    (staged tx₁ ++ staged tx₂).Nodup

/-- Calls that are both served have staged different devices. -/
theorem Served.apart {a₁ a₂ : ℤ} (h : Served s' a₁ a₂) (hs : Bookings s)
    {is : List (ServerInput (List ReservedRow))} (hrun : postgres.machine.run s is = some s') :
    postgres.machine.Meets Apart s is := by
  obtain ⟨tx₁, tx₂, htransactions, hcommitted₁, hcommitted₂, -, -, hnodup⟩ := h
  have hget : ∀ (j : ℕ) (tx : CallTransaction), s'.transactions[j]? = some tx →
      j = 0 ∧ tx = tx₁ ∨ j = 1 ∧ tx = tx₂ := by
    intro j tx hj
    rw [htransactions] at hj
    rcases j with _ | _ | j
    · exact Or.inl ⟨rfl, (Option.some.inj hj).symm⟩
    · exact Or.inr ⟨rfl, (Option.some.inj hj).symm⟩
    · cases hj
  have hdisjoint := List.disjoint_of_nodup_append hnodup
  refine meets_apart hs hrun (fun j tx hj => ?_) fun j k tx tx' hj hk hne => ?_
  · obtain ⟨-, rfl⟩ | ⟨-, rfl⟩ := hget j tx hj
    · rw [hcommitted₁]
      exact nofun
    · rw [hcommitted₂]
      exact nofun
  · obtain ⟨rfl, rfl⟩ | ⟨rfl, rfl⟩ := hget j tx hj
    · obtain ⟨rfl, -⟩ | ⟨-, rfl⟩ := hget k tx' hk
      · exact absurd rfl hne
      · exact hdisjoint
    · obtain ⟨-, rfl⟩ | ⟨rfl, -⟩ := hget k tx' hk
      · exact hdisjoint.symm
      · exact absurd rfl hne

/-- Calls that do not meet are both served. -/
theorem Clean.bothServed {tx₁ tx₂ : CallTransaction} (hs : Clean db s)
    (hfinal : ∀ i, postgres.step s i = none) (htransactions : s.transactions = [tx₁, tx₂]) :
    Served s tx₁.data.procedure.amount tx₂.data.procedure.amount := by
  have htx₁ : s.transactions[0]? = some tx₁ := by rw [htransactions]; rfl
  have htx₂ : s.transactions[1]? = some tx₂ := by rw [htransactions]; rfl
  have hcommitted₁ := hs.committed_of_final hfinal htx₁
  have hcommitted₂ := hs.committed_of_final hfinal htx₂
  have hproper₁ := hs.proper 0 tx₁ htx₁
  have hproper₂ := hs.proper 1 tx₂ htx₂
  refine ⟨tx₁, tx₂, htransactions, hcommitted₁, hcommitted₂, hproper₁.length ?_,
    hproper₂.length ?_, ?_⟩
  · rw [hcommitted₁]
    exact nofun
  · rw [hcommitted₂]
    exact nofun
  · exact hproper₁.nodup.append hproper₂.nodup (hs.apart 0 1 tx₁ tx₂ htx₁ htx₂ nofun)

/-- No call comes or goes. -/
theorem length_transactions {is : List (ServerInput (List ReservedRow))}
    (h : postgres.machine.run s is = some s') : s'.transactions.length = s.transactions.length := by
  refine Machine.invariant (I := fun u => u.transactions.length = s.transactions.length) ?_ rfl h
  intro u i u' hlength hstep
  obtain ⟨tx, htx, hrule⟩ := Schema.rule_of_step hstep
  obtain ⟨tx', hset, -⟩ := keeps_of_rule hrule
  rw [hset, List.length_set, hlength]

/-- **When two reservations are both served**: exactly when neither stages a
device that the other has staged. -/
theorem both_commit_iff (db : Database) (a₁ a₂ : ℤ) (c₁ c₂ : String) (now₁ now₂ : ℤ)
    (hfree : ∀ serial, db.status serial = some .available → ¬db.IsReserved serial)
    (henough : a₁ + a₂ ≤ db.countAvailable) {is : List (ServerInput (List ReservedRow))}
    (hrun : postgres.machine.run
      (start db [.makeReservations a₁ c₁ now₁, .makeReservations a₂ c₂ now₂]) is = some s) :
    is.length ≤ 4 * (a₁.toNat + a₂.toNat) + 8 ∧
      ((∀ i, postgres.step s i = none) →
        (Served s a₁ a₂ ↔ 0 ≤ a₁ ∧ 0 ≤ a₂ ∧ postgres.machine.Meets Apart
          (start db [.makeReservations a₁ c₁ now₁, .makeReservations a₂ c₂ now₂]) is)) := by
  have hbookings : Bookings
      (start db [.makeReservations a₁ c₁ now₁, .makeReservations a₂ c₂ now₂]) := by
    refine bookings_start db fun procedure hprocedure => ?_
    rcases List.mem_pair.mp hprocedure with rfl | rfl <;> trivial
  obtain ⟨tx₁, htx₁, hevolves₁⟩ := evolves_of_run hrun 0 getElem?_start
  obtain ⟨tx₂, htx₂, hevolves₂⟩ := evolves_of_run hrun 1 getElem?_start
  have htransactions : s.transactions = [tx₁, tx₂] := by
    obtain ⟨x, y, hxy⟩ := List.length_eq_two.mp (length_transactions hrun)
    rw [hxy] at htx₁ htx₂
    obtain rfl := Option.some.inj htx₁
    obtain rfl := Option.some.inj htx₂
    exact hxy
  refine ⟨?_, fun hfinal => ⟨fun hserved => ?_, ?_⟩⟩
  · have hle := budget.length_le (fun tx htx _ => hbookings.reserves tx htx) hrun
    refine hle.trans (Nat.le_of_eq ?_)
    show 4 * a₁.toNat + 4 + (4 * a₂.toNat + 4 + 0) = _
    omega
  · refine ⟨?_, ?_, hserved.apart hbookings hrun⟩
    · obtain ⟨tx, tx', -, -, -, hlength, -⟩ := hserved
      exact hlength ▸ Int.natCast_nonneg _
    · obtain ⟨tx, tx', -, -, -, -, hlength, -⟩ := hserved
      exact hlength ▸ Int.natCast_nonneg _
  · rintro ⟨h₁, h₂, hapart⟩
    have hstart : Clean db
        (start db [.makeReservations a₁ c₁ now₁, .makeReservations a₂ c₂ now₂]) := by
      refine clean_start (fun procedure hprocedure => ?_) hfree ?_
      · rcases List.mem_pair.mp hprocedure with rfl | rfl
        · exact ⟨trivial, h₁⟩
        · exact ⟨trivial, h₂⟩
      · show a₁.toNat + (a₂.toNat + 0) ≤ db.countAvailable
        omega
    have hclean : Clean db s := Machine.invariant_of_meets (I := Clean db)
      (fun _ _ _ hs hmeets hstep => clean_step hs hmeets hstep) hstart hapart hrun
    have hserved := hclean.bothServed hfinal htransactions
    rw [hevolves₁.procedure, hevolves₂.procedure] at hserved
    exact hserved

/-! ### Two devices for two calls -/

/-- A worker with two devices, which are available. -/
def twoAvailable : Database where
  worker := ⟨[⟨"pi2", "10.0.0.12", 8081, 0⟩], by decide⟩
  device := ⟨[⟨"A", "pi2", .available⟩, ⟨"B", "pi2", .available⟩], by decide⟩
  reservations := ∅
  deviceWorker := by decide
  reservationsDevice := by decide

/-- Two clients, who ask for a device each. -/
def twoClients : Postgres :=
  start twoAvailable [.makeReservations 1 "c" 0, .makeReservations 1 "d" 0]

/-- Side by side, each call stages a device of its own. -/
def staysApart : List (ServerInput (List ReservedRow)) :=
  [.first 0 [⟨"A", "10.0.0.12", 8081⟩], .first 1 [⟨"B", "10.0.0.12", 8081⟩],
    .statement 0, .statement 1, .write 0 0, .write 1 0,
    .statement 0, .statement 1, .write 0 0, .write 1 0, .commit 0, .commit 1]

/-- Side by side, the calls stage the same device. -/
def stagesTwice : List (ServerInput (List ReservedRow)) :=
  [.first 0 [⟨"A", "10.0.0.12", 8081⟩], .first 1 [⟨"A", "10.0.0.12", 8081⟩],
    .statement 0, .statement 1, .write 0 0, .write 1 0,
    .statement 0, .write 0 0, .commit 0, .resume 1, .statement 1, .write 1 0]

theorem twoAvailable_free (serial : String) (_ : twoAvailable.status serial = some .available) :
    ¬twoAvailable.IsReserved serial := List.not_mem_nil

theorem staysApart_run : (postgres.machine.run twoClients staysApart).map
    (fun s => s.transactions.map Transaction.stage) = some [.committed, .committed] := by
  decide

theorem stagesTwice_run : (postgres.machine.run twoClients stagesTwice).map
    (fun s => s.transactions.map Transaction.stage) = some [.committed, .aborted] := by
  decide

/-- Where all have finished, nothing goes on. -/
theorem final_of_stages {stages : List (Stage Statement RowWrite)}
    (h : s.transactions.map Transaction.stage = stages)
    (hfinished : ∀ stage ∈ stages, stage = .committed ∨ stage = .aborted)
    (i : ServerInput (List ReservedRow)) : postgres.step s i = none := by
  refine Schema.step_eq_none_of_finished (fun tx htx => hfinished _ ?_) i
  rw [← h]
  exact List.mem_map_of_mem htx

theorem staysApart_served : ∃ s, postgres.machine.run twoClients staysApart = some s ∧
    Served s 1 1 := by
  obtain ⟨s, hs, hstages⟩ := Option.map_eq_some_iff.mp staysApart_run
  have hfinal := final_of_stages hstages (by decide)
  refine ⟨s, hs, ?_⟩
  exact
    ((both_commit_iff twoAvailable 1 1 "c" "d" 0 0 twoAvailable_free (by decide) hs).2 hfinal).mpr
      ⟨by decide, by decide, by decide⟩

/-- **The second of two reservations fails**, although there is a device for each
of them. -/
theorem second_aborts :
    (∀ serial, twoAvailable.status serial = some .available → ¬twoAvailable.IsReserved serial) ∧
      1 + 1 ≤ twoAvailable.countAvailable ∧
      ∃ s, postgres.machine.run twoClients stagesTwice = some s ∧
        (∀ i, postgres.step s i = none) ∧ ¬Served s 1 1 := by
  obtain ⟨s, hs, hstages⟩ := Option.map_eq_some_iff.mp stagesTwice_run
  refine ⟨twoAvailable_free, by decide, s, hs, final_of_stages hstages (by decide), ?_⟩
  rintro ⟨tx₁, tx₂, htransactions, -, hcommitted, -⟩
  rw [htransactions] at hstages
  obtain ⟨-, htail⟩ := List.cons_eq_cons.mp hstages
  obtain ⟨haborted, -⟩ := List.cons_eq_cons.mp htail
  rw [hcommitted] at haborted
  cases haborted

end Postgres

end UsbipIce
