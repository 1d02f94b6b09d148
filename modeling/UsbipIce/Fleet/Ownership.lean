import UsbipIce.Control.Timeouts
import UsbipIce.Fleet.Fleet
import UsbipIce.Worker.Lifecycle

/-!
# Which worker writes the status of a device

Several workers share the database, each with the devices it has seen. The
column `Worker` of a device's row says whose the device is. Nothing checks it:
`DeviceManager.handleDevEvent` makes a `Device` whether or not `addDevice` went
through, and `updateDeviceStatus` finds the row by the serial alone. So a board
that is plugged into a second host while its row still names the first is
written by both (`UsbipIce.Workers.rejected_available`).

A worker writes only rows of its own in exactly the runs in which it has seen
only boards without a row, and no board gets a row while another worker still
has a `Device` for it (`UsbipIce.Workers.owns_iff`).

A worker is known by its name, and what runs under a name is one process.
-/

namespace UsbipIce

open Lib Worker Database

/-! ### Workers and their devices -/

/-- An entry of `_devs`, with the answer of `addDevice`, which nobody reads. -/
structure HeldDevice where
  device : Device StateFactory
  added : Bool

/-- A transaction of `Control`, or a heartbeat of it. -/
inductive ControlCall where
  | makeReservations (amount : ℤ) (clientName : String) (now : ℤ) (res : List ReservedRow)
  | endReservations (clientName : String) (serialIds : List String)
  | endAllReservations (clientName : String)
  | handleReservationTimeouts (now : ℤ)
  | handleWorkerTimeouts (now s : ℤ)
  | heartbeatWorker (wname : String) (now : ℤ)

/-- What it leaves; where it raises, it is rolled back. -/
def ControlCall.commit (db : Database) : ControlCall → Database
  | .makeReservations amount clientName now res =>
    ((db.makeReservations amount clientName now res).map Prod.fst).getD db
  | .endReservations clientName serialIds => (db.endReservations clientName serialIds).1
  | .endAllReservations clientName => (db.endAllReservations clientName).1
  | .handleReservationTimeouts now => (db.execute (Database.handleReservationTimeouts now)).1
  | .handleWorkerTimeouts now s => (db.execute (Database.handleWorkerTimeouts now s)).1
  | .heartbeatWorker wname now => (db.heartbeatWorker wname now).getD db

/-- The database, the workers that run, and `_devs` of each. -/
structure Workers where
  db : Database
  running : String → Bool
  devs : String → String → Option HeldDevice

/-- What happens at the workers and in the database. In `handleDevEvent` and
`device`, `reached` says whether the database can be reached. -/
inductive WorkersInput where
  /-- A worker starts: `WorkerDatabase.__init__` goes through. -/
  | addWorker (row : WorkerRow)
  /-- `DeviceManager.handleDevEvent`. -/
  | handleDevEvent (worker serial : String) (reached : Bool)
  /-- Something goes on inside a device of a worker. -/
  | device (worker serial : String) (i : DeviceStep Outside) (reached : Bool)
  /-- `DeviceManager.reserve`. -/
  | reserve (worker serial kind : String)
  /-- `DeviceManager.unreserve`. -/
  | unreserve (worker serial : String)
  /-- A worker ends: `DeviceManager.onExit`. -/
  | onExit (worker : String)
  | control (call : ControlCall)

/-- A device is plugged into the host of a worker, or unplugged. -/
def WorkersInput.plugs : WorkersInput → Bool
  | .handleDevEvent .. => true
  | .addWorker _ | .device .. | .reserve .. | .unreserve .. | .onExit _ | .control _ => false

namespace Workers

variable {s t : Workers} {w a : String}

/-- Sets an entry of `_devs` of a worker. -/
def setDevice (s : Workers) (w a : String) (h : HeldDevice) : Workers :=
  { s with devs := Function.update s.devs w (Function.update (s.devs w) a (some h)) }

@[simp] theorem setDevice_db (s : Workers) (w a : String) (h : HeldDevice) :
    (s.setDevice w a h).db = s.db := rfl

@[simp] theorem setDevice_running (s : Workers) (w a : String) (h : HeldDevice) :
    (s.setDevice w a h).running = s.running := rfl

@[simp] theorem setDevice_devs (s : Workers) (w a : String) (h : HeldDevice) (w' a' : String) :
    (s.setDevice w a h).devs w' a' = if w' = w ∧ a' = a then some h else s.devs w' a' := by
  rw [setDevice]
  by_cases hw : w' = w
  · subst hw
    by_cases ha : a' = a
    · simp [ha]
    · simp [ha]
  · simp [hw]

/-- One step of the workers. -/
def step (s : Workers) : WorkersInput → Option Workers
  | .addWorker row =>
    if s.running row.workerName then none
    else (s.db.addWorker row).map fun db =>
      { db := db
        running := Function.update s.running row.workerName true
        devs := Function.update s.devs row.workerName fun _ => none }
  | .handleDevEvent w a reached =>
    if s.running w then
      match s.devs w a with
      | some _ => some s
      | none =>
        -- `device = Device(..)` follows, whatever `addDevice` answers
        match if reached then s.db.addDevice a w else none with
        | some db => some ({ s with db := db }.setDevice w a ⟨states.init, true⟩)
        | none => some (s.setDevice w a ⟨states.init, false⟩)
    else none
  | .device w a i reached => (s.devs w a).bind fun h => (states.step h.device i).map fun x =>
    { s with db := if reached then Fleet.report s.db a x.2 else s.db }.setDevice w a
      ⟨x.1, h.added⟩
  | .reserve w a kind => (s.devs w a).map fun h =>
    s.setDevice w a ⟨states.handleReserve h.device kind, h.added⟩
  | .unreserve w a => (s.devs w a).map fun h =>
    s.setDevice w a ⟨states.handleUnreserve h.device, h.added⟩
  | .onExit w =>
    if s.running w then some
      { db := (s.db.execute (removeWorker w)).1
        running := Function.update s.running w false
        devs := Function.update s.devs w fun _ => none }
    else none
  | .control call => some { s with db := call.commit s.db }

/-- The workers as a machine. -/
def machine : Machine Workers WorkersInput := ⟨step⟩

/-- A database before any worker runs. -/
def start (db : Database) : Workers := ⟨db, fun _ => false, fun _ _ => none⟩

/-! ### What is asked of a write, and of a plug event -/

/-- The status that an effect writes. -/
def written : Option Effect → Option DeviceState
  | some (.status st) => some st
  | some (.exit _) | some (.start _) | some (.dispatch ..) | none => none

/-- **A status that a worker writes reaches no row of another worker**, and one
of a worker whose `addDevice` was rejected is never `available`. -/
def WritesOwn (s : Workers) : WorkersInput → Prop
  | .device w a i true => ∀ h ∈ s.devs w a, ∀ x ∈ states.step h.device i,
      ∀ st ∈ written x.2, ∀ w' ∈ s.db.owner a, w' = w ∧ (h.added = false → st ≠ .available)
  | .device _ _ _ false | .addWorker _ | .handleDevEvent .. | .reserve .. | .unreserve ..
  | .onExit _ | .control _ => True

instance (s : Workers) : ∀ i, Decidable (s.WritesOwn i)
  | .device w a i true => inferInstanceAs (Decidable (∀ h ∈ s.devs w a,
      ∀ x ∈ states.step h.device i, ∀ st ∈ written x.2, ∀ w' ∈ s.db.owner a,
        w' = w ∧ (h.added = false → st ≠ .available)))
  | .device _ _ _ false | .addWorker _ | .handleDevEvent .. | .reserve .. | .unreserve ..
  | .onExit _ | .control _ => .isTrue trivial

/-- **What a worker that sees a board for the first time should find**: no row of
another worker; and where its `addDevice` makes the row, no other worker that
still has a `Device` for the board. -/
def Registers (s : Workers) : WorkersInput → Prop
  | .handleDevEvent w a reached => s.running w = true → s.devs w a = none →
      (∀ w' ∈ s.db.owner a, w' = w) ∧
        (reached = true → (s.db.addDevice a w).isSome = true →
          ∀ w', w' ≠ w → s.devs w' a = none)
  | .addWorker _ | .device .. | .reserve .. | .unreserve .. | .onExit _ | .control _ => True

/-! ### Whose a row is -/

@[simp] theorem owner_report (db : Database) (serial : String) (e : Option Effect) :
    (Fleet.report db serial e).owner = db.owner := by
  match e with
  | none | some (.exit _) | some (.start _) | some (.dispatch ..) => rfl
  | some (.status st) =>
    rw [Fleet.report, updateDeviceStatus]
    split
    · exact owner_setStatus db (fun s => decide (s = serial)) st
    · rfl

theorem owner_congr {db db' : Database} (h : db'.device = db.device) : db'.owner = db.owner := by
  funext serial
  rw [owner, owner, h]

@[simp] theorem owner_endStaged (db : Database) (res : List String) :
    (db.endStaged res).1.owner = db.owner :=
  owner_setStatus db (fun s => s ∈ res) .awaitFlashDefault

/-- **What `Control` commits gives no row to another worker.** -/
theorem owner_commit {db : Database} {call : ControlCall} (h : (call.commit db).owner a = some w) :
    db.owner a = some w := by
  match call with
  | .makeReservations amount clientName now res =>
    rw [ControlCall.commit] at h
    cases hmake : db.makeReservations amount clientName now res with
    | none =>
      rw [hmake] at h
      exact h
    | some x =>
      obtain ⟨-, -, -, hdevice, -⟩ := makeReservations_rows hmake
      simpa [hmake, owner_congr hdevice] using h
  | .endReservations clientName serialIds =>
    simpa [ControlCall.commit, endReservations] using h
  | .endAllReservations clientName =>
    simpa [ControlCall.commit, endAllReservations] using h
  | .handleReservationTimeouts now =>
    rw [ControlCall.commit, execute, (db.never_expires now).1] at h
    exact h
  | .handleWorkerTimeouts now s =>
    rw [ControlCall.commit, execute, handleWorkerTimeouts_eq] at h
    obtain ⟨d, hd, hserial, hw⟩ := owner_eq_some.mp h
    exact owner_eq_some.mpr ⟨d, (Table.mem_delete.mp hd).1, hserial, hw⟩
  | .heartbeatWorker wname now =>
    rw [ControlCall.commit, heartbeatWorker] at h
    split at h
    · exact h
    · exact h

/-! ### Where every worker registers what it sees -/

/-- **The invariant**: who has a `Device` for a board owns its row, and a worker
that runs knows of the rows it owns. -/
structure Owned (s : Workers) : Prop where
  runs : ∀ w a h, s.devs w a = some h → s.running w = true
  owns : ∀ w a h, s.devs w a = some h → ∀ w', s.db.owner a = some w' → w' = w
  knows : ∀ w a, s.running w = true → s.db.owner a = some w →
    ∃ h, s.devs w a = some h ∧ h.added = true

/-- A rejected worker has no row to write. -/
theorem Owned.owner_eq_none (h : s.Owned) {held : HeldDevice} (hheld : s.devs w a = some held)
    (hadded : held.added = false) : s.db.owner a = none := by
  refine Option.eq_none_iff_forall_not_mem.mpr fun w' hw' => ?_
  obtain rfl := h.owns w a held hheld w' hw'
  obtain ⟨held', hheld', hadded'⟩ := h.knows w' a (h.runs w' a held hheld) hw'
  obtain rfl := Option.some.inj (hheld.symm.trans hheld')
  exact absurd (hadded.symm.trans hadded') Bool.false_ne_true

/-- Where the invariant holds, a write reaches rows of its own only. -/
theorem Owned.writesOwn (h : s.Owned) (i : WorkersInput) : s.WritesOwn i := by
  match i with
  | .device w a j true =>
    rintro held hheld x - st - w' hw'
    refine ⟨h.owns w a held hheld w' hw', fun hadded => ?_⟩
    rw [h.owner_eq_none hheld hadded] at hw'
    cases hw'
  | .device _ _ _ false | .addWorker _ | .handleDevEvent .. | .reserve .. | .unreserve ..
  | .onExit _ | .control _ => trivial

/-- The invariant looks at who has a `Device`, and not at what goes on in it;
and it is kept where rows go away. -/
theorem Owned.congr (h : s.Owned) (hrunning : t.running = s.running)
    (hdevs : ∀ w a, (t.devs w a).map HeldDevice.added = (s.devs w a).map HeldDevice.added)
    (howner : ∀ w a, t.db.owner a = some w → s.db.owner a = some w) : t.Owned := by
  have hback : ∀ w a held, t.devs w a = some held →
      ∃ held', s.devs w a = some held' ∧ held'.added = held.added := by
    intro w a held hheld
    have hmap := hdevs w a
    rw [hheld, Option.map_some] at hmap
    exact Option.map_eq_some_iff.mp hmap.symm
  refine ⟨fun w a held hheld => ?_, fun w a held hheld w' hw' => ?_, fun w a hrun hown => ?_⟩
  · obtain ⟨held', hheld', -⟩ := hback w a held hheld
    rw [hrunning]
    exact h.runs w a held' hheld'
  · obtain ⟨held', hheld', -⟩ := hback w a held hheld
    exact h.owns w a held' hheld' w' (howner w' a hw')
  · rw [hrunning] at hrun
    obtain ⟨held, hheld, hadded⟩ := h.knows w a hrun (howner w a hown)
    have hmap := hdevs w a
    rw [hheld, Option.map_some, hadded] at hmap
    exact Option.map_eq_some_iff.mp hmap

/-- Something goes on in a `Device`. -/
theorem Owned.setDevice (h : s.Owned) {held : HeldDevice} (hheld : s.devs w a = some held)
    (d : Device StateFactory) {db : Database} (hdb : db.owner = s.db.owner) :
    Owned ({ s with db := db }.setDevice w a ⟨d, held.added⟩) := by
  refine h.congr rfl (fun w' a' => ?_) fun w' a' hown => ?_
  · rw [setDevice_devs]
    split
    · rename_i heq
      obtain ⟨rfl, rfl⟩ := heq
      rw [hheld]
      rfl
    · rfl
  · rwa [setDevice_db, hdb] at hown

/-- The devices of a worker are forgotten, and it runs from then on only where
no row is its own. -/
theorem Owned.forget (h : s.Owned) (w : String) (b : Bool) {db : Database}
    (hdb : db.owner = s.db.owner) (hnew : b = true → ∀ a, s.db.owner a ≠ some w) :
    Workers.Owned ⟨db, Function.update s.running w b, Function.update s.devs w fun _ => none⟩ := by
  have hdevs : ∀ w' a held, Function.update s.devs w (fun _ => none) w' a = some held →
      w' ≠ w ∧ s.devs w' a = some held := by
    intro w' a held hheld
    by_cases hw : w' = w
    · subst hw
      rw [Function.update_self] at hheld
      cases hheld
    · rw [Function.update_of_ne hw] at hheld
      exact ⟨hw, hheld⟩
  refine ⟨fun w' a held hheld => ?_, fun w' a held hheld w'' hw'' => ?_, fun w' a hrun hown => ?_⟩
  · obtain ⟨hw, hheld⟩ := hdevs w' a held hheld
    exact (Function.update_of_ne hw ..).trans (h.runs w' a held hheld)
  · rw [hdb] at hw''
    exact h.owns w' a held (hdevs w' a held hheld).2 w'' hw''
  · rw [hdb] at hown
    dsimp only at hrun ⊢
    by_cases hw : w' = w
    · subst hw
      rw [Function.update_self] at hrun
      exact absurd hown (hnew hrun a)
    · rw [Function.update_of_ne hw] at hrun ⊢
      exact h.knows w' a hrun hown

/-- A worker that makes a `Device` runs. -/
theorem Owned.running (h : s.Owned) (hrun : s.running w = true) {db : Database} {added : Bool} :
    ∀ w' a' held, (Workers.setDevice { s with db := db } w a ⟨states.init, added⟩).devs w' a' =
      some held → s.running w' = true := by
  intro w' a' held hheld
  rw [setDevice_devs] at hheld
  split at hheld
  · rename_i heq
    exact heq.1 ▸ hrun
  · exact h.runs w' a' held hheld

/-- **A board that `addDevice` makes a row for**: no other worker may have a
`Device` for it. -/
theorem Owned.addDevice (h : s.Owned) (hrun : s.running w = true) {db : Database}
    (hadd : s.db.addDevice a w = some db) (hnone : ∀ w', w' ≠ w → s.devs w' a = none) :
    Owned (Workers.setDevice { s with db := db } w a ⟨states.init, true⟩) := by
  obtain ⟨-, howner⟩ := owner_addDevice hadd
  refine ⟨h.running hrun, fun w' a' held hheld w'' hw'' => ?_, fun w' a' hrun' hown => ?_⟩
  · rw [setDevice_devs] at hheld
    rw [setDevice_db, howner] at hw''
    split at hheld
    · rename_i heq
      obtain ⟨rfl, rfl⟩ := heq
      rw [if_pos rfl] at hw''
      exact (Option.some.inj hw'').symm
    · rename_i hne
      split at hw''
      · rename_i ha
        subst ha
        rw [hnone w' fun hw => hne ⟨hw, rfl⟩] at hheld
        cases hheld
      · exact h.owns w' a' held hheld w'' hw''
  · rw [setDevice_devs]
    rw [setDevice_db, howner] at hown
    split at hown
    · rename_i ha
      rw [if_pos ⟨(Option.some.inj hown).symm, ha⟩]
      exact ⟨_, rfl, rfl⟩
    · rename_i ha
      rw [if_neg fun heq => ha heq.2]
      exact h.knows w' a' hrun' hown

/-- **A board without a row**, which gets none. -/
theorem Owned.reject (h : s.Owned) (hrun : s.running w = true) (hnone : s.db.owner a = none) :
    Owned (s.setDevice w a ⟨states.init, false⟩) := by
  refine ⟨h.running hrun, fun w' a' held hheld w'' hw'' => ?_, fun w' a' hrun' hown => ?_⟩
  · rw [setDevice_devs] at hheld
    rw [setDevice_db] at hw''
    split at hheld
    · rename_i heq
      rw [heq.2, hnone] at hw''
      cases hw''
    · exact h.owns w' a' held hheld w'' hw''
  · rw [setDevice_db] at hown
    rw [setDevice_devs, if_neg]
    · exact h.knows w' a' hrun' hown
    · rintro ⟨-, rfl⟩
      rw [hnone] at hown
      cases hown

/-- **A worker sees a board**, and is the only one that has a `Device` for it
then. -/
theorem Owned.handleDevEvent (h : s.Owned) {reached : Bool}
    (hreg : s.Registers (.handleDevEvent w a reached))
    (hstep : s.step (.handleDevEvent w a reached) = some t) : t.Owned := by
  rw [step] at hstep
  split at hstep
  · rename_i hrun
    split at hstep
    · obtain rfl := Option.some.inj hstep
      exact h
    · rename_i hdevs
      obtain ⟨hown, hothers⟩ := hreg hrun hdevs
      split at hstep
      · rename_i db hadd
        obtain rfl := Option.some.inj hstep
        obtain ⟨hreached, hadd⟩ : reached = true ∧ s.db.addDevice a w = some db := by
          split at hadd
          · exact ⟨‹_›, hadd⟩
          · cases hadd
        exact h.addDevice hrun hadd (hothers hreached (Option.isSome_iff_exists.mpr ⟨db, hadd⟩))
      · obtain rfl := Option.some.inj hstep
        refine h.reject hrun (Option.eq_none_iff_forall_not_mem.mpr fun w' hw' => ?_)
        -- a worker that runs knows of the rows it owns
        obtain rfl := hown w' hw'
        obtain ⟨held, hheld, -⟩ := h.knows w' a hrun hw'
        rw [hdevs] at hheld
        cases hheld
  · cases hstep

theorem owned_step {i : WorkersInput} (h : s.Owned) (hreg : s.Registers i)
    (hstep : s.step i = some t) : t.Owned := by
  match i with
  | .addWorker row =>
    rw [step] at hstep
    split at hstep
    · cases hstep
    · obtain ⟨db, hdb, rfl⟩ := Option.map_eq_some_iff.mp hstep
      rw [addWorker] at hdb
      split at hdb
      · cases hdb
      · rename_i worker hins
        obtain rfl := Option.some.inj hdb
        have hnew : row.workerName ∉ s.db.worker.keys :=
          Table.insert?_isSome.mp (Option.isSome_iff_exists.mpr ⟨worker, hins⟩)
        exact h.forget row.workerName true rfl fun _ a hown => hnew (mem_keys_of_owner hown)
  | .handleDevEvent w a reached => exact h.handleDevEvent hreg hstep
  | .device w a j reached =>
    obtain ⟨held, hheld, hstep⟩ := Option.bind_eq_some_iff.mp hstep
    obtain ⟨x, -, rfl⟩ := Option.map_eq_some_iff.mp hstep
    refine h.setDevice hheld x.1 ?_
    split
    · exact owner_report s.db a x.2
    · rfl
  | .reserve w a kind =>
    obtain ⟨held, hheld, rfl⟩ := Option.map_eq_some_iff.mp hstep
    exact h.setDevice hheld _ rfl
  | .unreserve w a =>
    obtain ⟨held, hheld, rfl⟩ := Option.map_eq_some_iff.mp hstep
    exact h.setDevice hheld _ rfl
  | .onExit w =>
    rw [step] at hstep
    split at hstep
    · obtain rfl := Option.some.inj hstep
      have hdb : (s.db.execute (removeWorker w)).1 = s.db := by
        simp [execute]
      rw [hdb]
      exact h.forget w false rfl fun hb => absurd hb Bool.false_ne_true
    · cases hstep
  | .control call =>
    obtain rfl := Option.some.inj hstep
    exact h.congr rfl (fun _ _ => rfl) fun _ _ => owner_commit

theorem owned_start (db : Database) : (start db).Owned where
  runs := fun w a held hheld => by cases hheld
  owns := fun w a held hheld => by cases hheld
  knows := fun w a hrun => by cases hrun

/-! ### What a plug event can lead to -/

/-- A device that is given back writes its status. -/
theorem step_unreserve (d : Device StateFactory) :
    states.step (states.handleUnreserve d) (.thread d.threads.length) = some
      ({ d with
         threads := (d.threads ++ [DeviceThread.flashDefault]).set d.threads.length
           (.deviceSwitch states.flashDefault) }, some (.status .flashingDefault)) := by
  rw [StateTable.step, StateTable.handleUnreserve, List.getElem?_append_right (Nat.le_refl _),
    Nat.sub_self]
  rfl

/-- A write at the end of a run without plug events, into the row of another
worker. -/
theorem not_meets_of_write {held : HeldDevice} {n : ℕ} {d : Device StateFactory} {st : DeviceState}
    {w' : String} (hheld : s.devs w a = some held)
    (hwrite : states.step held.device (.thread n) = some (d, some (.status st)))
    (howner : s.db.owner a = some w') (hne : w' ≠ w) :
    ¬machine.Meets WritesOwn s [.device w a (.thread n) true] := by
  rintro ⟨hwrites, -⟩
  exact hne (hwrites held hheld _ hwrite _ rfl w' howner).1

/-- **The row is another worker's**: `Device.__init__` writes it. -/
theorem exists_not_writesOwn_of_owner {reached : Bool} (hrun : s.running w = true)
    (hdevs : s.devs w a = none) {w' : String} (hw' : s.db.owner a = some w') (hne : w' ≠ w) :
    ∃ ks, (∀ k ∈ ks, k.plugs = false) ∧
      ¬machine.Meets WritesOwn s (.handleDevEvent w a reached :: ks) := by
  have hadd : (if reached then s.db.addDevice a w else none) = none := by
    split
    · refine Option.not_isSome_iff_eq_none.mp fun hsome => ?_
      rw [(addDevice_isSome.mp hsome).2] at hw'
      cases hw'
    · rfl
  have hplug : s.step (.handleDevEvent w a reached) =
      some (s.setDevice w a ⟨states.init, false⟩) := by
    simp only [step, hrun, hdevs, hadd, if_true]
  refine ⟨[.device w a (.thread 0) true], by simp [WorkersInput.plugs], ?_⟩
  rintro ⟨-, hmeets⟩
  have hheld : (s.setDevice w a ⟨states.init, false⟩).devs w a = some ⟨states.init, false⟩ := by
    rw [setDevice_devs, if_pos ⟨rfl, rfl⟩]
  exact not_meets_of_write hheld rfl hw' hne (hmeets _ hplug)

/-- **The row is new, and another worker still has a `Device`**: it is given back,
and writes the row. -/
theorem exists_not_writesOwn_of_device (hrun : s.running w = true) (hdevs : s.devs w a = none)
    {db : Database} (hadd : s.db.addDevice a w = some db) {w' : String} {held : HeldDevice}
    (hheld : s.devs w' a = some held) (hne : w' ≠ w) :
    ∃ ks, (∀ k ∈ ks, k.plugs = false) ∧
      ¬machine.Meets WritesOwn s (.handleDevEvent w a true :: ks) := by
  have hplug : s.step (.handleDevEvent w a true) =
      some (setDevice { s with db := db } w a ⟨states.init, true⟩) := by
    simp only [step, hrun, hdevs, hadd, if_true]
  have hgive : step (Workers.setDevice { s with db := db } w a ⟨states.init, true⟩)
      (.unreserve w' a) = some ((Workers.setDevice { s with db := db } w a
        ⟨states.init, true⟩).setDevice w' a ⟨states.handleUnreserve held.device, held.added⟩) := by
    rw [step, setDevice_devs, if_neg fun h => hne h.1]
    change Option.map _ (s.devs w' a) = _
    rw [hheld]
    rfl
  have howner : db.owner a = some w := by
    rw [(owner_addDevice hadd).2 a, if_pos rfl]
  refine ⟨[.unreserve w' a, .device w' a (.thread held.device.threads.length) true],
    by simp [WorkersInput.plugs], ?_⟩
  rintro ⟨-, hmeets⟩
  obtain ⟨-, hmeets⟩ := hmeets _ hplug
  have hgiven : ((Workers.setDevice { s with db := db } w a ⟨states.init, true⟩).setDevice w' a
      ⟨states.handleUnreserve held.device, held.added⟩).devs w' a =
        some ⟨states.handleUnreserve held.device, held.added⟩ := by
    rw [setDevice_devs, if_pos ⟨rfl, rfl⟩]
  exact not_meets_of_write hgiven (step_unreserve held.device) howner hne.symm (hmeets _ hgive)

/-- **A board seen by a worker that does not own it is written by a stranger**,
with no other plug event. -/
theorem exists_not_writesOwn {i : WorkersInput} (hnot : ¬s.Registers i) :
    ∃ ks, (∀ k ∈ ks, k.plugs = false) ∧ ¬machine.Meets WritesOwn s (i :: ks) := by
  match i with
  | .addWorker _ | .device .. | .reserve .. | .unreserve .. | .onExit _ | .control _ =>
    exact absurd trivial hnot
  | .handleDevEvent w a reached =>
    obtain ⟨hrun, hnew⟩ := Classical.not_imp.mp hnot
    obtain ⟨hdevs, hfinds⟩ := Classical.not_imp.mp hnew
    by_cases hown : ∀ w' ∈ s.db.owner a, w' = w
    · obtain ⟨rfl, hmakes⟩ := Classical.not_imp.mp (not_and.mp hfinds hown)
      obtain ⟨hsome, hothers⟩ := Classical.not_imp.mp hmakes
      obtain ⟨w', hother⟩ := Classical.not_forall.mp hothers
      obtain ⟨hne, hheld⟩ := Classical.not_imp.mp hother
      obtain ⟨db, hadd⟩ := Option.isSome_iff_exists.mp hsome
      obtain ⟨held, hheld⟩ := Option.ne_none_iff_exists'.mp hheld
      exact exists_not_writesOwn_of_device hrun hdevs hadd hheld hne
    · obtain ⟨w', hown⟩ := Classical.not_forall.mp hown
      obtain ⟨hw', hne⟩ := Classical.not_imp.mp hown
      exact exists_not_writesOwn_of_owner hrun hdevs hw' hne

/-! ### Every run -/

/-- A run without plug events has nothing to register. -/
theorem registers_of_plugs {ks : List WorkersInput} (hks : ∀ k ∈ ks, k.plugs = false) :
    machine.Meets Registers s ks := by
  induction ks generalizing s with
  | nil => trivial
  | cons k ks ih =>
    refine ⟨?_, fun t _ => ih fun x hx => hks x (List.mem_cons_of_mem _ hx)⟩
    have hk := hks k List.mem_cons_self
    match k with
    | .handleDevEvent .. => cases hk
    | .addWorker _ | .device .. | .reserve .. | .unreserve .. | .onExit _ | .control _ => trivial

/-- **When workers write only rows of their own.** Whatever the database holds
before the workers start, however many there are and in whatever order things
happen to them: each of them sees only boards without a row of another worker,
and makes a row only where no other worker has a `Device` for the board, exactly
if at no time the devices can go on, without another plug event, to a write into
the row of another worker, or of `available` by a worker that was rejected. -/
theorem owns_iff (db : Database) (is : List WorkersInput) :
    machine.Meets Registers (start db) is ↔
      ∀ js ks, js <+: is → (∀ k ∈ ks, k.plugs = false) →
        machine.Meets WritesOwn (start db) (js ++ ks) := by
  constructor
  · rintro hreg js ks ⟨ls, rfl⟩ hks
    have hmeets : machine.Meets Registers (start db) (js ++ ks) :=
      Machine.meets_append.mpr ⟨(Machine.meets_append.mp hreg).1, fun _ _ => registers_of_plugs hks⟩
    exact Machine.meets_of_meets (I := Owned) (fun _ _ _ h hreg => owned_step h hreg)
      (fun _ i h _ => h.writesOwn i) (owned_start db) hmeets
  · intro h
    refine Machine.meets_iff.mpr fun js i s hjs hs => ?_
    by_contra hnot
    obtain ⟨ks, hks, hmeets⟩ := exists_not_writesOwn hnot
    have happ := h (js ++ [i]) ks hjs hks
    rw [List.append_assoc] at happ
    exact hmeets ((Machine.meets_append.mp happ).2 s hs)

/-! ### A board that moves -/

theorem no_device :
    ∀ d ∈ (∅ : Table DeviceRow DeviceRow.serialId),
      d.worker ∈ (∅ : Table WorkerRow WorkerRow.workerName).keys :=
  fun d hd => absurd hd (Table.not_mem_empty d)

theorem no_reservation :
    ∀ r ∈ (∅ : Table ReservationRow ReservationRow.device),
      r.device ∈ (∅ : Table DeviceRow DeviceRow.serialId).keys :=
  fun r hr => absurd hr (Table.not_mem_empty r)

/-- A database without rows. -/
def empty : Database where
  worker := ∅
  device := ∅
  reservations := ∅
  deviceWorker := no_device
  reservationsDevice := no_reservation

/-- Board `A` is seen by `w1`, which begins to flash it, and is then plugged into
the host of `w2`, which flashes and tests it. -/
def moved : List WorkersInput :=
  [.addWorker ⟨"w1", "10.0.0.1", 8081, 0⟩, .addWorker ⟨"w2", "10.0.0.2", 8081, 0⟩,
    .handleDevEvent "w1" "A" true, .device "w1" "A" (.thread 0) true,
    .handleDevEvent "w2" "A" true] ++ boot.map fun i => .device "w2" "A" i true

theorem moved_run : (machine.run (start empty) moved).map (fun s =>
    (s.db.device.rows, (s.devs "w2" "A").map HeldDevice.added,
      (s.devs "w1" "A").map fun h => h.device.current)) =
    some ([⟨"A", "w1", .available⟩], some false, some none) := by
  decide

/-- **A worker whose `addDevice` was rejected makes the board `available`**, in
the row of the worker that has not begun to test it. -/
theorem rejected_available :
    (∃ s, machine.run (start empty) moved = some s ∧
      s.db.device.rows = [⟨"A", "w1", .available⟩] ∧
      (s.devs "w2" "A").map HeldDevice.added = some false ∧
      (s.devs "w1" "A").map (fun h => h.device.current) = some none) ∧
    ¬machine.Meets WritesOwn (start empty) moved := by
  obtain ⟨s, hs, heq⟩ := Option.map_eq_some_iff.mp moved_run
  obtain ⟨hrows, hrest⟩ := Prod.mk.inj heq
  obtain ⟨hadded, hcurrent⟩ := Prod.mk.inj hrest
  exact ⟨⟨s, hs, hrows, hadded, hcurrent⟩, by decide⟩

end Workers

end UsbipIce
