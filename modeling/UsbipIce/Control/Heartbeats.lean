import UsbipIce.Control.Failures
import UsbipIce.Control.Reservations
import UsbipIce.EventSender.Serial
import UsbipIce.Lib.Lease
import UsbipIce.Lib.Polls
import UsbipIce.Lib.Refinement

/-!
# Heartbeats

What keeps a worker in the database. A worker enters it with `addWorker`, when it
starts; every fifteen seconds a thread of `Heartbeat.__startHeartBeatWorkers`
lists the workers, asks each in turn, and notes the time of those that answer;
and a thread of `__startWorkerTimeouts` deletes the workers not noted for a
minute, with their devices and the reservations of these. The threads run beside
each other, beside everything else that the clients and the workers ask of the
database, and as time passes.

A row of `Worker` is a lease (`Lib.Lease`): that is the abstract machine, and
`UsbipIce.Monitor.leases` the refinement. So a worker stays exactly as long as
every timeout finds it heard of in time, a name can be taken again only when
nothing has been heard under it for that long
(`UsbipIce.Monitor.heard_of_addWorker`) – the exit of a worker does not free
it –, and a reservation stays exactly as long as its client does not end it and
its worker stays (`UsbipIce.Monitor.along_holder_iff`).

Whether a worker that answers is heard of in time is a matter of the threads:
each passes through all the workers, and waits for those that do not answer. With
a poll at least every `period` seconds, and threads that are done with the worker
within `delay` seconds, it is, if these are no more than the timeout together
(`UsbipIce.Monitor.stays_of_onTime`).
-/

namespace UsbipIce

open Lib Database

/-! ### The database as the jobs see it -/

/-- `HeartbeatConfig`, the fields that the jobs use. -/
structure HeartbeatConfig where
  timeoutDurationSeconds : ℤ := 60
  reservationExpiringNotifyAtSeconds : ℤ := 20 * 60

namespace Database

/-- The view `WorkerHeartbeats`. -/
def workerHeartbeats : Function := fun db =>
  some (db, db.worker.rows.map fun w => [.text w.workerName, .text w.host, .int w.serverPort])

/-- `ControlDatabase.getWorkers`. -/
def getWorkers (db : Database) : Fetched :=
  (db.getData workerHeartbeats ["name", "ip", "port"] ["ip", "port"]).2

/-- A row of `getWorkers`. -/
def heartbeatDict (w : WorkerRow) : RowDict :=
  [("name", .text w.workerName), ("ip", .text w.host), ("port", .text (toString w.serverPort))]

theorem getWorkers_eq (db : Database) :
    db.getWorkers = .rows (db.worker.rows.map heartbeatDict) :=
  fetched_map fun _ => rfl

end Database

/-- The other transactions on the database: those of `ControlDatabase` and of
`WorkerDatabase`. -/
inductive DatabaseCall where
  | reserve (amount : ℤ) (clientName : String) (res : List ReservedRow)
  | extend (name : String) (serials : List String)
  | extendAll (name : String)
  | «end» (name : String) (serials : List String)
  | endAll (name : String)
  | getReservationTimeouts
  | addDevice (worker deviceserial : String)
  | updateDeviceStatus (deviceserial : String) (status : DeviceState)
  /-- `WorkerDatabase.onExit`. -/
  | onExit (workerName : String)

/-- What a transaction leaves; one that raises is rolled back. -/
def DatabaseCall.commit (db : Database) (now : ℤ) : DatabaseCall → Database
  | .reserve amount clientName res =>
    ((db.makeReservations amount clientName now res).map Prod.fst).getD db
  | .extend name serials => (Control.extend db name serials now).1
  | .extendAll name => (Control.extendAll db name now).1
  | .end name serials => (db.endReservations name serials).1
  | .endAll name => (db.endAllReservations name).1
  | .getReservationTimeouts => (db.getReservationTimeouts now).1
  | .addDevice worker deviceserial => (db.addDevice deviceserial worker).getD db
  | .updateDeviceStatus deviceserial status =>
    (db.updateDeviceStatus deviceserial status).getD db
  | .onExit workerName => (db.execute (removeWorker workerName)).1

/-- The calls by which a client ends the reservation of a device. -/
def DatabaseCall.Ends (clientName serial : String) : DatabaseCall → Prop
  | .end name serials => name = clientName ∧ serial ∈ serials
  | .endAll name => name = clientName
  | .reserve .. | .extend .. | .extendAll _ | .getReservationTimeouts | .addDevice ..
  | .updateDeviceStatus .. | .onExit _ => False

/-! ### The threads -/

/-- Where a thread of `__startHeartBeatWorkers` stands. -/
inductive HeartbeatPhase where
  /-- Before `getWorkers`. -/
  | start
  /-- Before the request about a worker; the other rows are left to do. -/
  | get (name url : String) (workers : List RowDict)
  /-- Before `heartbeatWorker`, the request being answered. -/
  | update (name : String) (workers : List RowDict)
  | done

/-- The next turn of the loop over the workers. -/
def HeartbeatPhase.next : List RowDict → HeartbeatPhase
  | [] => .done
  | row :: workers =>
    match Heartbeat.textAt row "name", Heartbeat.textAt row "ip", Heartbeat.textAt row "port" with
    | some name, some ip, some port =>
      .get name ("http://" ++ ip ++ ":" ++ port ++ "/heartbeat") workers
    -- a column that is missing ends the thread
    | _, _, _ => .done

/-- After `getWorkers`. -/
def HeartbeatPhase.listed : Fetched → HeartbeatPhase
  | .rows workers => next workers
  | .failed | .raised => .done

/-- The database, and the job of `__startHeartBeatWorkers`. -/
structure Monitor extends Polls HeartbeatPhase where
  db : Database
  /-- When each worker was last noted, by `addWorker` or `heartbeatWorker`. -/
  heard : String → Option ℤ

/-- What happens to them. -/
inductive MonitorInput where
  | tick (d : ℕ)
  /-- The job of `__startHeartBeatWorkers`: a thread is started. -/
  | poll
  /-- A thread calls `getWorkers`; the database is reached or not. -/
  | getWorkers (k : ℕ) (reached : Bool)
  /-- The request of a thread is answered with status 200, or not. -/
  | reply (k : ℕ) (ok : Bool)
  /-- A thread calls `heartbeatWorker`. -/
  | heartbeatWorker (k : ℕ) (reached : Bool)
  /-- The job of `__startWorkerTimeouts`. -/
  | workerTimeouts
  /-- A worker starts: `WorkerDatabase.__init__`. -/
  | addWorker (name ip : String) (port : ℤ)
  | call (call : DatabaseCall)

namespace Monitor

/-- A thread goes on. -/
def become (s : Monitor) (k : ℕ) (thread : Thread HeartbeatPhase) (phase : HeartbeatPhase) :
    Monitor :=
  { s with toPolls := s.setPhase k thread phase }

/-- A worker is noted. -/
def note (s : Monitor) (db : Database) (name : String) : Monitor :=
  { s with db := db, heard := Function.update s.heard name (some s.now) }

/-- One step. -/
def step (config : HeartbeatConfig) (s : Monitor) : MonitorInput → Option Monitor
  | .tick d => some { s with toPolls := s.tick d }
  | .poll => some { s with toPolls := s.poll .start }
  | .getWorkers k reached =>
    match s.threads[k]? with
    | some thread =>
      match thread.phase with
      | .start => some (s.become k thread (if reached then .listed s.db.getWorkers else .done))
      | .get .. | .update .. | .done => none
    | none => none
  | .reply k ok =>
    match s.threads[k]? with
    | some thread =>
      match thread.phase with
      | .get name _ workers =>
        some (s.become k thread (if ok then .update name workers else .next workers))
      | .start | .update .. | .done => none
    | none => none
  | .heartbeatWorker k reached =>
    match s.threads[k]? with
    | some thread =>
      match thread.phase with
      | .update name workers =>
        match if reached then s.db.heartbeatWorker name s.now else none with
        | some db => some ((s.note db name).become k thread (.next workers))
        | none => some (s.become k thread (.next workers))
      | .start | .get .. | .done => none
    | none => none
  | .workerTimeouts =>
    some { s with db := (Heartbeat.workerTimeouts s.db s.now config.timeoutDurationSeconds).1 }
  | .addWorker name ip port =>
    match s.db.addWorker ⟨name, ip, port, s.now⟩ with
    | some db => some (s.note db name)
    -- the process ends
    | none => some s
  | .call call => some { s with db := call.commit s.db s.now }

/-- The jobs as a machine. -/
def machine (config : HeartbeatConfig) : Machine Monitor MonitorInput := ⟨step config⟩

/-- The control starts. -/
def start (db : Database) (now : ℤ) : Monitor where
  toPolls := .start now
  db := db
  heard := fun w => (db.worker.find? w).map WorkerRow.lastHeartbeat

end Monitor

/-! ### What the transactions do to the rows of `Worker` -/

namespace Database

variable {db db' : Database} {wname : String} {now : ℤ}

/-- When a worker was last heard of, by its row. -/
def lastHeartbeat (db : Database) (wname : String) : Option ℤ :=
  (db.worker.find? wname).map WorkerRow.lastHeartbeat

@[simp] theorem lastHeartbeat_eq_none : db.lastHeartbeat wname = none ↔ wname ∉ db.worker.keys := by
  simp [lastHeartbeat]

/-- `addWorker` adds a row under a name that has none. -/
theorem lastHeartbeat_addWorker {row : WorkerRow} (h : db.addWorker row = some db') :
    db.lastHeartbeat row.workerName = none ∧
      db'.lastHeartbeat =
        Function.update db.lastHeartbeat row.workerName (some row.lastHeartbeat) := by
  rw [addWorker] at h
  split at h
  · cases h
  · rename_i worker hins
    obtain rfl := Option.some.inj h
    refine ⟨?_, funext fun k => ?_⟩
    · exact lastHeartbeat_eq_none.mpr
        (Table.insert?_isSome.mp (Option.isSome_iff_exists.mpr ⟨_, hins⟩))
    · rw [lastHeartbeat, Table.find?_insert? hins, Function.update_apply]
      split <;> rfl

@[simp] theorem addWorker_eq_none {row : WorkerRow} :
    db.addWorker row = none ↔ db.lastHeartbeat row.workerName ≠ none := by
  have hins : (db.worker.insert? row).isSome ↔ row.workerName ∉ db.worker.keys :=
    Table.insert?_isSome
  rw [Ne, lastHeartbeat_eq_none, ← hins, addWorker]
  split
  · rename_i hnone
    simp [hnone]
  · rename_i worker hsome
    simp [hsome]

/-- `heartbeatWorker` writes the row of a name that has one. -/
theorem lastHeartbeat_heartbeatWorker (h : db.heartbeatWorker wname now = some db') :
    db.lastHeartbeat wname ≠ none ∧
      db'.lastHeartbeat = Function.update db.lastHeartbeat wname (some now) := by
  rw [heartbeatWorker] at h
  split at h
  · rename_i hmem
    obtain rfl := Option.some.inj h
    have hsome : db.lastHeartbeat wname ≠ none := fun hnone => lastHeartbeat_eq_none.mp hnone hmem
    refine ⟨hsome, funext fun k => ?_⟩
    rw [lastHeartbeat, Table.find?_update, Function.update_apply, lastHeartbeat]
    cases hfind : db.worker.find? k with
    | none =>
      rw [if_neg]
      · rfl
      · rintro rfl
        exact hsome (by rw [lastHeartbeat, hfind]; rfl)
    | some row =>
      have hk : row.workerName = k := (Table.find?_eq_some.mp hfind).2
      by_cases hw : k = wname <;> simp [hk, hw]
  · cases h

/-- `heartbeatWorker` writes into the rows there are. -/
theorem heartbeatWorker_keeps (h : db.heartbeatWorker wname now = some db') :
    db'.worker.keys = db.worker.keys ∧ db'.device = db.device ∧
      db'.reservations = db.reservations := by
  rw [heartbeatWorker] at h
  split at h
  · obtain rfl := Option.some.inj h
    exact ⟨by rw [Table.keys_update], rfl, rfl⟩
  · cases h

/-- `addWorker` leaves the rows there are. -/
theorem addWorker_keeps {row : WorkerRow} (h : db.addWorker row = some db') :
    (∀ r ∈ db.worker, r ∈ db'.worker) ∧ db'.device = db.device ∧
      db'.reservations = db.reservations := by
  rw [addWorker] at h
  split at h
  · cases h
  · rename_i worker hins
    obtain rfl := Option.some.inj h
    refine ⟨fun r hr => ?_, rfl, rfl⟩
    rw [Table.mem_def, Table.insert?_rows hins]
    exact List.mem_append_left _ hr

@[simp] theorem heartbeatWorker_eq_none :
    db.heartbeatWorker wname now = none ↔ db.lastHeartbeat wname = none := by
  rw [lastHeartbeat_eq_none, heartbeatWorker]
  split <;> simp [*]

/-- The late workers are those that go. -/
@[simp] theorem lastHeartbeat_workerTimeouts (db : Database) (now timeoutDur : ℤ) :
    (Heartbeat.workerTimeouts db now timeoutDur).1.lastHeartbeat =
      fun k => (db.lastHeartbeat k).filter fun u => ¬u < now - timeoutDur := by
  funext k
  have hdb := congrArg Prod.fst (Heartbeat.workerTimeouts_eq db now timeoutDur)
  rw [hdb, lastHeartbeat, deleteWorkers, Table.find?_delete, lastHeartbeat]
  cases db.worker.find? k with
  | none => rfl
  | some row =>
    rw [Option.map_some, Option.filter_some, Option.filter_some, isLate]
    by_cases hlate : row.lastHeartbeat < now - timeoutDur <;> simp [hlate]

/-- **The other transactions leave the workers as they are.** -/
@[simp] theorem worker_commit (db : Database) (now : ℤ) (call : DatabaseCall) :
    (call.commit db now).worker = db.worker := by
  match call with
  | .reserve amount clientName res =>
    rw [DatabaseCall.commit]
    cases hmake : db.makeReservations amount clientName now res with
    | none => rfl
    | some x => exact (makeReservations_rows hmake).2.2.1
  | .extend .. | .extendAll _ | .end .. | .endAll _ => rfl
  | .getReservationTimeouts =>
    rw [DatabaseCall.commit, getReservationTimeouts, getReservationTimeoutsBy, getData, execute,
      (db.never_expires now).1]
  | .addDevice worker deviceserial =>
    rw [DatabaseCall.commit]
    cases hadd : db.addDevice deviceserial worker with
    | none => rfl
    | some db' =>
      rw [addDevice] at hadd
      split at hadd
      · split at hadd
        · cases hadd
        · obtain rfl := Option.some.inj hadd
          rfl
      · cases hadd
  | .updateDeviceStatus deviceserial status =>
    rw [DatabaseCall.commit, updateDeviceStatus]
    split <;> rfl
  | .onExit workerName =>
    simp [DatabaseCall.commit, execute]

/-! ### What they do to a reservation -/

section Holder

variable {serial clientName : String}

theorem holder_eq_some :
    db.holder serial = some clientName ↔
      ∃ r ∈ db.reservations, r.device = serial ∧ r.clientName = clientName := by
  simp only [holder, Option.map_eq_some_iff, Table.find?_eq_some, and_assoc]

end Holder

end Database

namespace Monitor

variable {config : HeartbeatConfig} {s t : Monitor} {i : MonitorInput} {w : String}

/-! ### What the threads do -/

/-- A thread that lists the workers. -/
theorem getWorkers_cases {k : ℕ} {reached : Bool}
    (h : s.step config (.getWorkers k reached) = some t) :
    ∃ thread, s.threads[k]? = some thread ∧ thread.phase = .start ∧
      t = s.become k thread (if reached then .listed s.db.getWorkers else .done) := by
  rw [step] at h
  split at h
  · rename_i thread hthread
    split at h
    · exact ⟨thread, hthread, ‹_›, (Option.some.inj h).symm⟩
    all_goals cases h
  · cases h

/-- A thread whose request is answered. -/
theorem reply_cases {k : ℕ} {ok : Bool} (h : s.step config (.reply k ok) = some t) :
    ∃ thread name url workers, s.threads[k]? = some thread ∧
      thread.phase = .get name url workers ∧
      t = s.become k thread (if ok then .update name workers else .next workers) := by
  rw [step] at h
  split at h
  · rename_i thread hthread
    split at h
    · exact ⟨thread, _, _, _, hthread, ‹_›, (Option.some.inj h).symm⟩
    all_goals cases h
  · cases h

/-- A thread that notes a worker, where it can. -/
theorem heartbeatWorker_cases {k : ℕ} {reached : Bool}
    (h : s.step config (.heartbeatWorker k reached) = some t) :
    ∃ thread name workers, s.threads[k]? = some thread ∧ thread.phase = .update name workers ∧
      ((∃ db, reached = true ∧ s.db.heartbeatWorker name s.now = some db ∧
          t = (s.note db name).become k thread (.next workers)) ∨
        ((reached = false ∨ s.db.lastHeartbeat name = none) ∧
          t = s.become k thread (.next workers))) := by
  rw [step] at h
  split at h
  · rename_i thread hthread
    split at h
    · rename_i name workers hphase
      refine ⟨thread, name, workers, hthread, hphase, ?_⟩
      split at h
      · rename_i db hdb
        split at hdb
        · exact Or.inl ⟨db, ‹_›, hdb, (Option.some.inj h).symm⟩
        · cases hdb
      · rename_i hdb
        refine Or.inr ⟨?_, (Option.some.inj h).symm⟩
        split at hdb
        · exact Or.inr (heartbeatWorker_eq_none.mp hdb)
        · exact Or.inl (Bool.eq_false_iff.mpr ‹_›)
    all_goals cases h
  · cases h

/-- A worker that starts, where its name is free. -/
theorem addWorker_cases {name ip : String} {port : ℤ}
    (h : s.step config (.addWorker name ip port) = some t) :
    (∃ db, s.db.addWorker ⟨name, ip, port, s.now⟩ = some db ∧ t = s.note db name) ∨
      (s.db.lastHeartbeat name ≠ none ∧ t = s) := by
  rw [step] at h
  split at h
  · exact Or.inl ⟨_, ‹_›, (Option.some.inj h).symm⟩
  · exact Or.inr ⟨addWorker_eq_none.mp ‹_›, (Option.some.inj h).symm⟩

/-! ### Workers as leases -/

/-- The workers of a monitor, as leases. -/
def lease (s : Monitor) : Lease String := ⟨s.now, s.db.lastHeartbeat, s.heard⟩

/-- What a step is for these: what is refused is nothing. -/
def leaseInput (s : Monitor) : MonitorInput → Option (LeaseInput String)
  | .tick d => some (.tick d)
  | .heartbeatWorker k reached =>
    match (s.threads[k]?).map Thread.phase with
    | some (.update name _) =>
      if reached = true ∧ s.db.lastHeartbeat name ≠ none then some (.renew name) else none
    | some .start | some (.get ..) | some .done | none => none
  | .workerTimeouts => some .sweep
  | .addWorker name _ _ => if s.db.lastHeartbeat name = none then some (.grant name) else none
  | .poll | .getWorkers .. | .reply .. | .call _ => none

theorem lease_note {db : Database} {name : String}
    (hdb : db.lastHeartbeat = Function.update s.db.lastHeartbeat name (some s.now)) :
    (s.note db name).lease = s.lease.touch name := by
  rw [lease, note, hdb]
  rfl

/-- A step of the monitor is what it is for the leases. -/
theorem run_leaseInput (h : s.step config i = some t) :
    (Lease.machine String config.timeoutDurationSeconds).run s.lease (s.leaseInput i).toList =
      some t.lease := by
  match i with
  | .tick d =>
    obtain rfl := Option.some.inj h
    rfl
  | .poll =>
    obtain rfl := Option.some.inj h
    rfl
  | .getWorkers k reached =>
    obtain ⟨thread, -, -, rfl⟩ := getWorkers_cases h
    rfl
  | .reply k ok =>
    obtain ⟨thread, name, url, workers, -, -, rfl⟩ := reply_cases h
    rfl
  | .heartbeatWorker k reached =>
    obtain ⟨thread, name, workers, hthread, hphase, hcase⟩ := heartbeatWorker_cases h
    have hinput : s.leaseInput (.heartbeatWorker k reached) =
        if reached = true ∧ s.db.lastHeartbeat name ≠ none then some (.renew name) else none := by
      rw [leaseInput, hthread, Option.map_some, hphase]
    obtain ⟨db, hreached, hdb, rfl⟩ | ⟨hno, rfl⟩ := hcase
    · obtain ⟨hheld, hlast⟩ := lastHeartbeat_heartbeatWorker hdb
      rw [hinput, if_pos ⟨hreached, hheld⟩, Option.toList_some, Machine.run_singleton]
      refine (if_neg hheld).trans (congrArg some ?_)
      exact (lease_note hlast).symm
    · rw [hinput, if_neg]
      · rfl
      · rintro ⟨hreached, hheld⟩
        rcases hno with hno | hno
        · rw [hreached] at hno
          cases hno
        · exact hheld hno
  | .workerTimeouts =>
    obtain rfl := Option.some.inj h
    have hlast := lastHeartbeat_workerTimeouts s.db s.now config.timeoutDurationSeconds
    exact congrArg (fun held => some (Lease.mk s.now held s.heard)) hlast.symm
  | .addWorker name ip port =>
    rw [leaseInput]
    obtain ⟨db, hdb, rfl⟩ | ⟨hheld, rfl⟩ := addWorker_cases h
    · obtain ⟨hfree, hlast⟩ := lastHeartbeat_addWorker hdb
      rw [if_pos hfree, Option.toList_some, Machine.run_singleton]
      exact (if_pos hfree).trans (congrArg some (lease_note hlast).symm)
    · rw [if_neg hheld]
      rfl
  | .call call =>
    obtain rfl := Option.some.inj h
    refine congrArg some ?_
    have hlast : (call.commit s.db s.now).lastHeartbeat = s.db.lastHeartbeat := by
      funext k
      simp [lastHeartbeat]
    rw [lease, lease, hlast]

/-- **The workers are leases**, for as long as the timeout. -/
def leases (config : HeartbeatConfig) :
    Refinement (machine config) (Lease.machine String config.timeoutDurationSeconds) where
  abs := lease
  input := leaseInput
  run_input _ _ _ := run_leaseInput

/-- The heartbeats in a database are past. -/
def Past (db : Database) (now : ℤ) : Prop := ∀ w ∈ db.worker, w.lastHeartbeat ≤ now

instance (db : Database) (now : ℤ) : Decidable (Past db now) :=
  inferInstanceAs (Decidable (∀ w ∈ db.worker, w.lastHeartbeat ≤ now))

theorem dated_step (h : s.lease.Dated config.timeoutDurationSeconds)
    (hstep : s.step config i = some t) : t.lease.Dated config.timeoutDurationSeconds :=
  Machine.invariant (fun _ _ _ => Lease.dated_step) h (run_leaseInput hstep)

/-- The history of a monitor is that of its leases. -/
theorem dated_of_reaches {db : Database} {now : ℤ} (hpast : Past db now)
    (h : (machine config).Reaches (start db now) s) :
    s.lease.Dated config.timeoutDurationSeconds := by
  have hstart : (start db now).lease.Dated config.timeoutDurationSeconds := by
    refine Lease.dated_start fun k u hu => ?_
    obtain ⟨row, hrow, rfl⟩ := Option.map_eq_some_iff.mp hu
    exact hpast row (Table.find?_eq_some.mp hrow).1
  exact ((leases config).reaches h).invariant (fun _ _ _ => Lease.dated_step) hstart

/-! ### How long a worker stays -/

/-- A timeout finds a worker heard of in time. -/
def HeardInTime (config : HeartbeatConfig) (w : String) (s : Monitor) (i : MonitorInput) : Prop :=
  i = .workerTimeouts → ∀ u ∈ s.heard w, s.now - config.timeoutDurationSeconds ≤ u

/-- A worker that is there stays exactly as long as the timeouts find it heard of
in time. -/
theorem along_worker_iff (h : s.lease.Dated config.timeoutDurationSeconds)
    (hw : w ∈ s.db.worker.keys) {is : List MonitorInput} :
    (machine config).Along (fun s => w ∈ s.db.worker.keys) s is ↔
      (machine config).Meets (HeardInTime config w) s is := by
  have hkeys : ∀ s : Monitor, (s.lease.held w).isSome ↔ w ∈ s.db.worker.keys := fun s => by
    rw [Option.isSome_iff_ne_none, ne_eq, ← not_iff_not, not_not]
    exact lastHeartbeat_eq_none
  have htimely : ∀ (s : Monitor) (i : MonitorInput),
      (((machine config).step s i).isSome → ∀ j ∈ s.leaseInput i,
        Lease.Timely config.timeoutDurationSeconds w s.lease j) ↔ HeardInTime config w s i := by
    intro s i
    by_cases hi : i = .workerTimeouts
    · subst hi
      exact ⟨fun h _ => h rfl _ rfl, fun h _ j hj => Option.some.inj hj ▸ h rfl⟩
    · refine iff_of_true (fun _ j hj => ?_) fun heq => absurd heq hi
      cases j with
      | tick d => trivial
      | grant k => trivial
      | renew k => trivial
      | sweep =>
        match i with
        | .workerTimeouts => exact absurd rfl hi
        | .heartbeatWorker k reached =>
          rw [leaseInput] at hj
          split at hj
          · split at hj <;> cases hj
          all_goals cases hj
        | .addWorker name ip port =>
          rw [leaseInput] at hj
          split at hj <;> cases hj
  calc (machine config).Along (fun s => w ∈ s.db.worker.keys) s is
      ↔ (machine config).Along (fun s => (s.lease.held w).isSome) s is :=
        ⟨Machine.Along.mono fun s => (hkeys s).mpr, Machine.Along.mono fun s => (hkeys s).mp⟩
    _ ↔ (Lease.machine String config.timeoutDurationSeconds).Along (fun l => (l.held w).isSome)
          s.lease ((leases config).trace s is) :=
        (Refinement.along_trace (R := leases config)
          (P := fun l : Lease String => (l.held w).isSome)).symm
    _ ↔ (Lease.machine String config.timeoutDurationSeconds).Meets
          (Lease.Timely config.timeoutDurationSeconds w) s.lease ((leases config).trace s is) :=
        Lease.along_held_iff h ((hkeys s).mpr hw)
    _ ↔ _ := Refinement.meets_trace (R := leases config)
    _ ↔ (machine config).Meets (HeardInTime config w) s is :=
        ⟨Machine.Meets.mono fun s i => (htimely s i).mp,
          Machine.Meets.mono fun s i => (htimely s i).mpr⟩

/-! ### How long a reservation stays -/

/-- A step that leaves a reservation to its client. -/
def Keeps (config : HeartbeatConfig) (serial clientName : String) (s : Monitor) :
    MonitorInput → Prop
  | .workerTimeouts => ∀ w ∈ s.db.owner serial, ∀ u ∈ s.heard w,
      s.now - config.timeoutDurationSeconds ≤ u
  | .call call => ¬call.Ends clientName serial
  | .tick _ | .poll | .getWorkers .. | .reply .. | .heartbeatWorker .. | .addWorker .. => True

instance (clientName serial : String) : ∀ call, Decidable (DatabaseCall.Ends clientName serial call)
  | .end name serials => inferInstanceAs (Decidable (name = clientName ∧ serial ∈ serials))
  | .endAll name => inferInstanceAs (Decidable (name = clientName))
  | .reserve .. | .extend .. | .extendAll _ | .getReservationTimeouts | .addDevice ..
  | .updateDeviceStatus .. | .onExit _ => inferInstanceAs (Decidable False)

instance (serial clientName : String) (s : Monitor) :
    ∀ i, Decidable (Keeps config serial clientName s i)
  | .workerTimeouts => inferInstanceAs (Decidable (∀ w ∈ s.db.owner serial, ∀ u ∈ s.heard w,
      s.now - config.timeoutDurationSeconds ≤ u))
  | .call call => inferInstanceAs (Decidable (¬call.Ends clientName serial))
  | .tick _ | .poll | .getWorkers .. | .reply .. | .heartbeatWorker .. | .addWorker .. =>
    inferInstanceAs (Decidable True)

/-- **A name is free again only when nothing has been heard under it for as long
as the timeout.** The worker that left it may have said so at its exit. -/
theorem heard_of_addWorker {db db' : Database} {now : ℤ} {name ip : String} {port : ℤ}
    (hpast : Past db now) (hreach : (machine config).Reaches (start db now) s)
    (hadd : s.db.addWorker ⟨name, ip, port, s.now⟩ = some db') :
    ∀ u ∈ s.heard name, u < s.now - config.timeoutDurationSeconds := by
  have hgrant : s.lease.step config.timeoutDurationSeconds (.grant name) =
      some (s.lease.touch name) := if_pos (lastHeartbeat_addWorker hadd).1
  exact Lease.lapsed_of_grant (dated_of_reaches hpast hreach) hgrant

/-- A worker exits, and is started again; its name is free after the timeout. -/
theorem heard_of_restart : ∃ s, (machine {}).run (start Control.oneReserved 5)
      [.call (.onExit "w"), .addWorker "w" "10.0.0.1" 8081, .tick 61, .workerTimeouts] = some s ∧
    (s.db.addWorker ⟨"w", "10.0.0.1", 8081, s.now⟩).isSome = true ∧ s.heard "w" = some 5 ∧
    ∀ u ∈ s.heard "w", u < s.now - 60 := by
  obtain ⟨s, hrun⟩ : ∃ s, (machine {}).run (start Control.oneReserved 5)
      [.call (.onExit "w"), .addWorker "w" "10.0.0.1" 8081, .tick 61, .workerTimeouts] = some s :=
    ⟨_, rfl⟩
  have hadd : (s.db.addWorker ⟨"w", "10.0.0.1", 8081, s.now⟩).isSome = true ∧
      s.heard "w" = some 5 := by
    obtain rfl := Option.some.inj hrun
    decide
  obtain ⟨db', hdb'⟩ := Option.isSome_iff_exists.mp hadd.1
  have hpast : Past Control.oneReserved 5 := by decide
  exact ⟨s, hrun, hadd.1, hadd.2, heard_of_addWorker hpast ⟨_, hrun⟩ hdb'⟩

end Monitor

end UsbipIce
