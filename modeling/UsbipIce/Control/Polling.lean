import UsbipIce.Control.Heartbeats

/-!
# Polling in time

Whether a worker that answers is heard of in time (`UsbipIce.Monitor.HeardInTime`)
is a matter of the threads. Each goes through all the workers, one after the
other, and waits for those that do not answer; several threads may be on their
way, and none knows of another.

The run is on time (`Lib.Polls.OnTime`) if there is a poll at least every `period`
seconds and every thread is done with the worker `delay` seconds after its start.
Then the worker has been noted in the last `period + delay` seconds, at every
moment, and stays if this is no more than the timeout
(`UsbipIce.Monitor.stays_of_onTime`).

The reason is that every moment is covered by a poll (`Lib.Polls.Covered`). So
there is one between `delay` and `period + delay` seconds ago, and its thread is
done with the worker.
-/

namespace UsbipIce

open Lib Database

namespace HeartbeatPhase

/-- The rows left to do. -/
def workers : HeartbeatPhase → List RowDict
  | .start | .done => []
  | .get _ _ workers | .update _ workers => workers

/-- The thread is not done with a worker. -/
def Awaits (w : String) : HeartbeatPhase → Prop
  | .start => True
  | .get name _ workers | .update name workers =>
    name = w ∨ ∃ dict ∈ workers, Heartbeat.textAt dict "name" = some w
  | .done => False

instance (w : String) : ∀ phase, Decidable (Awaits w phase)
  | .start => inferInstanceAs (Decidable True)
  | .get name _ workers | .update name workers =>
    inferInstanceAs (Decidable (name = w ∨ ∃ dict ∈ workers, Heartbeat.textAt dict "name" = some w))
  | .done => inferInstanceAs (Decidable False)

/-- The thread is at a worker. -/
def Asks (w : String) : HeartbeatPhase → Prop
  | .get name _ _ | .update name _ => name = w
  | .start | .done => False

instance (w : String) : ∀ phase, Decidable (Asks w phase)
  | .get name _ _ | .update name _ => inferInstanceAs (Decidable (name = w))
  | .start | .done => inferInstanceAs (Decidable False)

/-- The rows are rows of `getWorkers`. -/
def Listed (phase : HeartbeatPhase) : Prop :=
  ∀ dict ∈ phase.workers, ∃ row, heartbeatDict row = dict

/-- **The next turn of the loop** is for the next worker. -/
theorem next_spec {workers : List RowDict} (h : ∀ dict ∈ workers, ∃ row, heartbeatDict row = dict)
    (w : String) :
    (next workers).Listed ∧
      ((∃ dict ∈ workers, Heartbeat.textAt dict "name" = some w) → (next workers).Awaits w) := by
  cases workers with
  | nil =>
    exact ⟨fun _ hd => absurd hd List.not_mem_nil, fun ⟨_, hd, _⟩ => absurd hd List.not_mem_nil⟩
  | cons dict workers =>
    obtain ⟨row, rfl⟩ := h dict List.mem_cons_self
    refine ⟨fun d hd => h d (List.mem_cons_of_mem _ hd), ?_⟩
    rintro ⟨dict, hmem, hname⟩
    rcases List.mem_cons.mp hmem with rfl | hmem
    · exact Or.inl (Option.some.inj hname)
    · exact Or.inr ⟨dict, hmem, hname⟩

end HeartbeatPhase

namespace Monitor

variable {config : HeartbeatConfig} {s t : Monitor} {i : MonitorInput} {w : String}
  {period delay : ℕ} {base : ℤ}

/-! ### On time -/

/-- The worker answers, and the database is reached. -/
def Answers (w : String) (s : Monitor) : MonitorInput → Prop
  | .getWorkers _ reached => reached = true
  | .reply k ok => ∀ thread ∈ s.threads[k]?, thread.phase.Asks w → ok = true
  | .heartbeatWorker k reached => ∀ thread ∈ s.threads[k]?, thread.phase.Asks w → reached = true
  | .tick _ | .poll | .workerTimeouts | .addWorker .. | .call _ => True

instance (w : String) (s : Monitor) : ∀ i, Decidable (Answers w s i)
  | .getWorkers _ reached => inferInstanceAs (Decidable (reached = true))
  | .reply k ok =>
    inferInstanceAs (Decidable (∀ thread ∈ s.threads[k]?, thread.phase.Asks w → ok = true))
  | .heartbeatWorker k reached =>
    inferInstanceAs (Decidable (∀ thread ∈ s.threads[k]?, thread.phase.Asks w → reached = true))
  | .tick _ | .poll | .workerTimeouts | .addWorker .. | .call _ => inferInstanceAs (Decidable True)

/-- What holds of the threads anyway. -/
structure Orderly (s : Monitor) : Prop where
  polls : s.toPolls.Orderly
  listed : ∀ thread ∈ s.threads, thread.phase.Listed

/-- **The invariant**: every moment is covered by a poll, and the worker has been
noted since each poll whose thread is done with it. -/
structure Watched (w : String) (period : ℕ) (base : ℤ) (s : Monitor) : Prop where
  row : w ∈ s.db.worker.keys
  covered : s.toPolls.Covered base period
  noted : ∃ u, s.heard w = some u ∧ base ≤ u ∧ u ≤ s.now ∧
    ∀ thread ∈ s.threads, ¬thread.phase.Awaits w → thread.started ≤ u

/-- **The worker has been noted not long ago.** -/
theorem Watched.recent (h : Watched w period base s)
    (honTime : s.OnTime (HeartbeatPhase.Awaits w) period delay) :
    ∃ u, s.heard w = some u ∧ s.now ≤ u + period + delay := by
  obtain ⟨u, hu, hbase, -, hdone⟩ := h.noted
  refine ⟨u, hu, ?_⟩
  by_contra hlate
  have hearly : base < s.now - delay := by omega
  obtain ⟨v, hv, rfl | ⟨thread, hthread, rfl, hawaits⟩⟩ := h.covered.exists_done honTime hearly
  · omega
  · have hnoted := hdone thread hthread hawaits
    omega

/-! ### The steps -/

theorem Orderly.become (h : s.Orderly) {k : ℕ} {thread : Thread HeartbeatPhase}
    (hk : s.threads[k]? = some thread) {phase : HeartbeatPhase} (hlisted : phase.Listed) :
    (s.become k thread phase).Orderly := by
  refine ⟨h.polls.setPhase hk phase, fun thread' hthread' => ?_⟩
  rcases Polls.mem_setPhase hthread' with hold | rfl
  · exact h.listed thread' hold
  · exact hlisted

/-- A thread goes on: it is not done with the worker, or this has been noted
since it began. -/
theorem Watched.become (h : Watched w period base s) {k : ℕ} {thread : Thread HeartbeatPhase}
    (hk : s.threads[k]? = some thread) {phase : HeartbeatPhase}
    (hdone : ¬phase.Awaits w → ∀ u ∈ s.heard w, thread.started ≤ u) :
    Watched w period base (s.become k thread phase) := by
  refine ⟨h.row, h.covered.setPhase hk phase, ?_⟩
  obtain ⟨u, hu, hbase, hnow, hall⟩ := h.noted
  refine ⟨u, hu, hbase, hnow, fun thread' hthread' hawaits => ?_⟩
  rcases Polls.mem_setPhase hthread' with hold | rfl
  · exact hall thread' hold hawaits
  · exact hdone hawaits u hu

@[simp] theorem heard_note (s : Monitor) (db : Database) (name w : String) :
    (s.note db name).heard w = if w = name then some s.now else s.heard w :=
  Function.update_apply _ _ _ _

/-- A worker is noted. -/
theorem Watched.note (h : Watched w period base s) (horderly : s.Orderly) {db : Database}
    (hrow : w ∈ db.worker.keys) (name : String) : Watched w period base (s.note db name) := by
  refine ⟨hrow, h.covered, ?_⟩
  obtain ⟨u, hu, hbase, hnow, hall⟩ := h.noted
  rw [heard_note, hu]
  split
  · exact ⟨s.now, rfl, hbase.trans hnow, le_refl _,
      fun thread hthread _ => horderly.polls.started thread hthread⟩
  · exact ⟨u, rfl, hbase, hnow, hall⟩

/-- The thread that lists the workers lists all of them. -/
theorem listed_getWorkers (db : Database) :
    (HeartbeatPhase.listed db.getWorkers).Listed ∧
      (w ∈ db.worker.keys → (HeartbeatPhase.listed db.getWorkers).Awaits w) := by
  have hdicts : ∀ dict ∈ db.worker.rows.map heartbeatDict, ∃ row, heartbeatDict row = dict :=
    fun dict hdict => (List.mem_map.mp hdict).imp fun _ hrow => hrow.2
  rw [getWorkers_eq]
  obtain ⟨hlisted, hawaits⟩ := HeartbeatPhase.next_spec hdicts w
  refine ⟨hlisted, fun hrow => hawaits ?_⟩
  obtain ⟨row, hmem, rfl⟩ := Table.mem_keys.mp hrow
  exact ⟨_, List.mem_map_of_mem hmem, rfl⟩

theorem orderly_step (h : s.Orderly) (hstep : s.step config i = some t) : t.Orderly := by
  match i with
  | .tick d =>
    obtain rfl := Option.some.inj hstep
    exact ⟨h.polls.tick d, h.listed⟩
  | .poll =>
    obtain rfl := Option.some.inj hstep
    refine ⟨h.polls.poll .start, fun thread hthread => ?_⟩
    rcases Polls.mem_poll hthread with hold | rfl
    · exact h.listed thread hold
    · exact fun _ hd => absurd hd List.not_mem_nil
  | .getWorkers k reached =>
    obtain ⟨thread, hthread, -, rfl⟩ := getWorkers_cases hstep
    refine h.become hthread ?_
    split
    · exact (listed_getWorkers (w := "") s.db).1
    · exact fun _ hd => absurd hd List.not_mem_nil
  | .reply k ok =>
    obtain ⟨thread, name, url, workers, hthread, hphase, rfl⟩ := reply_cases hstep
    have hlisted := h.listed thread (List.mem_of_getElem? hthread)
    rw [hphase] at hlisted
    refine h.become hthread ?_
    split
    · exact hlisted
    · exact (HeartbeatPhase.next_spec hlisted "").1
  | .heartbeatWorker k reached =>
    obtain ⟨thread, name, workers, hthread, hphase, hcase⟩ := heartbeatWorker_cases hstep
    have hlisted := h.listed thread (List.mem_of_getElem? hthread)
    rw [hphase] at hlisted
    have hnext := (HeartbeatPhase.next_spec hlisted "").1
    obtain ⟨db, -, -, rfl⟩ | ⟨-, rfl⟩ := hcase
    · have hnote : (s.note db name).Orderly := ⟨h.polls, h.listed⟩
      exact hnote.become hthread hnext
    · exact h.become hthread hnext
  | .workerTimeouts | .call call =>
    obtain rfl := Option.some.inj hstep
    exact ⟨h.polls, h.listed⟩
  | .addWorker name ip port =>
    obtain ⟨db, -, rfl⟩ | ⟨-, rfl⟩ := addWorker_cases hstep
    · exact ⟨h.polls, h.listed⟩
    · exact h

/-- A timeout that comes soon after the worker was noted leaves it. -/
theorem Watched.workerTimeouts (h : Watched w period base s)
    (hdated : s.lease.Dated config.timeoutDurationSeconds)
    (honTime : s.OnTime (HeartbeatPhase.Awaits w) period delay)
    (hle : (period + delay : ℤ) ≤ config.timeoutDurationSeconds) :
    w ∈ (Heartbeat.workerTimeouts s.db s.now config.timeoutDurationSeconds).1.worker.keys := by
  obtain ⟨u, hu, hrecent⟩ := h.recent honTime
  obtain ⟨v, hv⟩ := Option.ne_none_iff_exists'.mp fun hnone => lastHeartbeat_eq_none.mp hnone h.row
  obtain rfl := Option.some.inj (hu.symm.trans (hdated.held w v hv))
  by_contra hno
  rw [← lastHeartbeat_eq_none, lastHeartbeat_workerTimeouts] at hno
  dsimp only at hno
  rw [hv, Option.filter_some] at hno
  have hlive : ¬u < s.now - config.timeoutDurationSeconds := by omega
  rw [if_pos (decide_eq_true hlive)] at hno
  cases hno

theorem watched_step (h : Watched w period base s) (horderly : s.Orderly)
    (hdated : s.lease.Dated config.timeoutDurationSeconds)
    (honTime : s.OnTime (HeartbeatPhase.Awaits w) period delay)
    (honTime' : t.OnTime (HeartbeatPhase.Awaits w) period delay) (hanswers : Answers w s i)
    (hle : (period + delay : ℤ) ≤ config.timeoutDurationSeconds)
    (hstep : s.step config i = some t) : Watched w period base t := by
  match i with
  | .tick d =>
    obtain rfl := Option.some.inj hstep
    obtain ⟨u, hu, hbase, hnow, hall⟩ := h.noted
    have hnow' : u ≤ s.now + d := by omega
    exact ⟨h.row, h.covered.tick horderly.polls honTime'.polled, u, hu, hbase, hnow', hall⟩
  | .poll =>
    obtain rfl := Option.some.inj hstep
    obtain ⟨u, hu, hbase, hnow, hall⟩ := h.noted
    refine ⟨h.row, h.covered.poll .start, u, hu, hbase, hnow, fun thread hthread hdone => ?_⟩
    rcases Polls.mem_poll hthread with hold | rfl
    · exact hall thread hold hdone
    · exact absurd trivial hdone
  | .getWorkers k reached =>
    obtain ⟨thread, hthread, -, rfl⟩ := getWorkers_cases hstep
    obtain rfl : reached = true := hanswers
    exact h.become hthread fun hdone => absurd ((listed_getWorkers s.db).2 h.row) hdone
  | .reply k ok =>
    obtain ⟨thread, name, url, workers, hthread, hphase, rfl⟩ := reply_cases hstep
    have hmem : thread ∈ s.threads := List.mem_of_getElem? hthread
    have hlisted := horderly.listed thread hmem
    rw [hphase] at hlisted
    obtain ⟨u, hu, -, -, hall⟩ := h.noted
    refine h.become hthread fun hdone v hv => ?_
    obtain rfl := Option.some.inj (hu.symm.trans hv)
    refine hall thread hmem fun hthis => hdone ?_
    rw [hphase] at hthis
    split
    · exact hthis
    · -- the request about the worker itself is answered
      refine (HeartbeatPhase.next_spec hlisted w).2 (hthis.resolve_left ?_)
      rintro rfl
      exact absurd (hanswers thread hthread (by rw [hphase]; rfl)) ‹_›
  | .heartbeatWorker k reached =>
    obtain ⟨thread, name, workers, hthread, hphase, hcase⟩ := heartbeatWorker_cases hstep
    have hmem : thread ∈ s.threads := List.mem_of_getElem? hthread
    have hlisted := horderly.listed thread hmem
    rw [hphase] at hlisted
    have hother : name ≠ w → ¬(HeartbeatPhase.next workers).Awaits w →
        ∀ u ∈ s.heard w, thread.started ≤ u := by
      intro hne hdone v hv
      obtain ⟨u, hu, -, -, hall⟩ := h.noted
      obtain rfl := Option.some.inj (hu.symm.trans hv)
      refine hall thread hmem fun hthis => hdone ?_
      rw [hphase] at hthis
      exact (HeartbeatPhase.next_spec hlisted w).2 (hthis.resolve_left hne)
    obtain ⟨db, -, hdb, rfl⟩ | ⟨hno, rfl⟩ := hcase
    · have hrow : w ∈ db.worker.keys := by
        rw [(heartbeatWorker_keeps hdb).1]
        exact h.row
      refine (h.note horderly hrow name).become hthread fun hdone v hv => ?_
      rw [heard_note] at hv
      split at hv
      · rw [← Option.some.inj hv]
        exact horderly.polls.started thread hmem
      · exact hother (Ne.symm ‹_›) hdone v hv
    · refine h.become hthread (hother ?_)
      rintro rfl
      rcases hno with hno | hno
      · rw [hanswers thread hthread (by rw [hphase]; rfl)] at hno
        cases hno
      · exact lastHeartbeat_eq_none.mp hno h.row
  | .workerTimeouts =>
    obtain rfl := Option.some.inj hstep
    exact ⟨h.workerTimeouts hdated honTime hle, h.covered, h.noted⟩
  | .addWorker name ip port =>
    obtain ⟨db, hdb, rfl⟩ | ⟨-, rfl⟩ := addWorker_cases hstep
    · refine h.note horderly ?_ name
      obtain ⟨row, hrow, hk⟩ := Table.mem_keys.mp h.row
      exact Table.mem_keys.mpr ⟨row, (addWorker_keeps hdb).1 row hrow, hk⟩
    · exact h
  | .call call =>
    obtain rfl := Option.some.inj hstep
    refine ⟨?_, h.covered, h.noted⟩
    show w ∈ (call.commit s.db s.now).worker.keys
    simpa using h.row

/-! ### The runs -/

/-- **A worker that answers stays**, if the polls are frequent and the threads
quick. In every run from a moment at which the worker is noted: if all along it
there has been a poll in the last `period` seconds, and no thread that is not done
with the worker is more than `delay` seconds old, while the worker answers the
requests about it and the database is reached, then no timeout takes it, provided
that `period` and `delay` together are no more than the timeout. -/
theorem stays_of_onTime {db : Database} {now : ℤ} (hpast : Past db now)
    (hreach : (machine config).Reaches (start db now) s) (hrow : w ∈ s.db.worker.keys)
    (hheard : s.heard w = some s.now)
    (hle : (period + delay : ℤ) ≤ config.timeoutDurationSeconds) {is : List MonitorInput}
    (honTime : (machine config).Along
      (fun s => s.OnTime (HeartbeatPhase.Awaits w) period delay) s is)
    (hanswers : (machine config).Meets (Answers w) s is) :
    (machine config).Along (fun s => w ∈ s.db.worker.keys) s is := by
  have horderly : s.Orderly := by
    have hstart : (start db now).Orderly :=
      ⟨Polls.orderly_start now, fun _ h => absurd h List.not_mem_nil⟩
    exact hreach.invariant (I := Orderly) (fun _ _ _ h hstep => orderly_step h hstep) hstart
  have hwatched : Watched w period s.polled s :=
    ⟨hrow, Polls.covered_polled honTime.head.polled, s.now, hheard, horderly.polls.polled,
      Int.le_refl _, fun thread hthread _ => horderly.polls.started thread hthread⟩
  refine Machine.along_of_meets (I := fun t : Monitor => Watched w period s.polled t ∧ t.Orderly ∧
    t.lease.Dated config.timeoutDurationSeconds) ?_ (fun _ h => h.1.row)
    ⟨hwatched, horderly, dated_of_reaches hpast hreach⟩ (honTime.meets.and hanswers)
  rintro t i t' ⟨hwatched, horderly, hdated⟩ ⟨⟨hon, hon'⟩, hans⟩ hstep
  exact ⟨watched_step hwatched horderly hdated hon (hon' t' hstep) hans hle hstep,
    orderly_step horderly hstep, dated_step hdated hstep⟩

/-- A poll and a slow thread: a worker is heard of twice a minute. -/
def oneRound : List MonitorInput :=
  [.tick 30, .poll, .getWorkers 0 true, .tick 30, .workerTimeouts, .reply 0 true,
    .heartbeatWorker 0 true]

theorem oneRound_stays : (machine {}).Along (fun s => "w" ∈ s.db.worker.keys)
    (start Control.oneReserved 5) oneRound := by
  have hpast : Past Control.oneReserved 5 := by decide
  have honTime : (machine {}).Along (fun s => s.OnTime (HeartbeatPhase.Awaits "w") 30 30)
      (start Control.oneReserved 5) oneRound := by decide
  exact stays_of_onTime hpast (Machine.Reaches.refl _) (by decide) (by decide) (by decide) honTime
    (by decide)

end Monitor

end UsbipIce
