import UsbipIce.Control.Heartbeats
import UsbipIce.Lib.Polls

/-!
# Warnings of reservations that end

The job of `Heartbeat.__startReservationEndingSoon`: a thread asks for the serials
of the reservations that end within twenty minutes, and then, for one serial after
the other, looks up who holds it and sends an event. The lookups come after the
query, and anything may happen to the database before and between them.

So a warning may be false, and go to whoever has reserved the device in the
meantime. But none is missed: a reservation that is not touched is announced to
its client, and to nobody else, no later than `period + delay` seconds after it
begins to end soon, where there is a poll every `period` seconds and a thread takes
`delay` seconds to come to the device (`UsbipIce.Warner.announced_of_onTime`). An extension
makes it another reservation, which is announced in its turn. A client needs a name
for this: a reservation under the empty one, which control accepts, is announced to
nobody.
-/

namespace UsbipIce

open Lib Database

namespace Database

/-- `getReservationsEndingSoon`. -/
def getReservationsEndingSoon (now mins : ℤ) : Function := fun db =>
  let query := Relation.ofRows ReservationRow.columns
    [(⟨"getreservationsendingsoon", "mins"⟩, .int mins),
      (⟨"getreservationsendingsoon", "Device"⟩, .null)]
    (db.reservations.rows.filter fun r => r.till < now + mins) ReservationRow.values
    ReservationRow.length_values
  (query.returnQuery ["Device"] [.qualified "reservations" "device"]).map fun rows => (db, rows)

/-- `x[0]`, a serial. -/
def serialOf (row : List SqlValue) : Option String :=
  match row.head? with
  | some (.text serial) => some serial
  | some (.int _) | some .null | none => none

/-- `ControlDatabase.getReservationEndingSoon`, on the database as the query finds
it, or on none where it cannot be reached; `none` is `False`. -/
def getReservationEndingSoon (db : Option Database) (now minutes : ℤ) : Option (List String) :=
  match db.bind (getReservationsEndingSoon now minutes) with
  | none | some (_, []) => none
  | some (_, row :: rows) => (row :: rows).mapM serialOf

theorem getReservationsEndingSoon_eq (db : Database) (now mins : ℤ) :
    getReservationsEndingSoon now mins db = some (db,
      (db.reservations.rows.filter fun r => r.till < now + mins).map fun r =>
        [.text r.device]) := by
  have hrefs : Relation.resolveAll ReservationRow.columns [.qualified "reservations" "device"] =
      some [0] := by decide
  rw [getReservationsEndingSoon, Relation.returnQuery_ofRows ReservationRow.length_values
    (by simp [ColumnRef.refersTo]) hrefs rfl]
  rfl

/-- **What the query finds**: the devices whose reservations end soon. -/
theorem getReservationEndingSoon_eq (db : Database) (now minutes : ℤ) :
    (getReservationEndingSoon (some db) now minutes).getD [] =
      (db.reservations.rows.filter fun r => r.till < now + minutes).map ReservationRow.device := by
  have hserials : ∀ l : List ReservationRow,
      (l.map fun r => [SqlValue.text r.device]).mapM serialOf =
        some (l.map ReservationRow.device) := by
    intro l
    induction l with
    | nil => rfl
    | cons r l ih => simp [serialOf, ih]
  rw [getReservationEndingSoon, Option.bind_some, getReservationsEndingSoon_eq]
  cases hrows : db.reservations.rows.filter fun r => r.till < now + minutes with
  | nil => rfl
  | cons r l => exact congrArg (Option.getD · []) (hserials (r :: l))

end Database

/-- What `sendDeviceReservationEndingSoon` gives `sendSerialJson` to package. -/
def endingSoonEvent (serial : String) : Package String :=
  packageContents id serial ⟨[("event", "reservation ending soon")], by decide⟩

/-! ### The threads -/

/-- Where a thread of `__startReservationEndingSoon` stands. -/
inductive WarningPhase where
  /-- Before `getReservationEndingSoon`. -/
  | start
  /-- In the loop, with the serials left to do. -/
  | send (data : List String)

/-- A call of `sendClient`: when it is made, and about which device. -/
structure Warning where
  serial : String
  clientId : String
  contents : String
  time : ℤ
  deriving DecidableEq, Repr

/-- The database, and the job of `__startReservationEndingSoon`. -/
structure Warner extends Polls WarningPhase where
  db : Database
  sent : List Warning

/-- What happens to them. -/
inductive WarnerInput where
  | tick (d : ℕ)
  /-- The job: a thread is started. -/
  | poll
  /-- A thread calls `getReservationEndingSoon`; the database is reached or not. -/
  | query (k : ℕ) (reached : Bool)
  /-- A thread calls `sendDeviceReservationEndingSoon`. -/
  | send (k : ℕ) (reached : Bool)
  /-- Other transactions leave the database as it is then. -/
  | others (db : Database)

namespace Warner

/-- The control starts. -/
def start (db : Database) (now : ℤ) : Warner := ⟨.start now, db, []⟩

/-- A thread goes on. -/
def become (s : Warner) (k : ℕ) (thread : Thread WarningPhase) (phase : WarningPhase)
    (sent : List Warning) : Warner where
  toPolls := s.setPhase k thread phase
  db := s.db
  sent := s.sent ++ sent

section Dumps

-- `json.dumps` of what `__packageContents` makes, which is never empty
variable (dumps : Package String → {text : String // text ≠ ""})

/-- `ControlEventSender.sendDeviceReservationEndingSoon`: the call of `sendClient`
it makes. -/
def sendDeviceReservationEndingSoon (db : Option Database) (serial : String) (now : ℤ) :
    List Warning :=
  match (sendSerialJson (packaged (some (dumps (endingSoonEvent serial)).val))
    (getReservationClientId db serial)).client with
  | some (clientId, contents) => [⟨serial, clientId, contents, now⟩]
  | none => []

/-- One step. -/
def step (config : HeartbeatConfig) (s : Warner) : WarnerInput → Option Warner
  | .tick d => some { s with toPolls := s.tick d }
  | .poll => some { s with toPolls := s.poll .start }
  | .query k reached =>
    match s.threads[k]? with
    | some thread =>
      match thread.phase with
      | .start => some (s.become k thread (.send ((getReservationEndingSoon
          (if reached then some s.db else none) s.now
          config.reservationExpiringNotifyAtSeconds).getD [])) [])
      | .send _ => none
    | none => none
  | .send k reached =>
    match s.threads[k]? with
    | some thread =>
      match thread.phase with
      | .send (serial :: data) =>
        some (s.become k thread (.send data) (sendDeviceReservationEndingSoon dumps
          (if reached then some s.db else none) serial s.now))
      | .start | .send [] => none
    | none => none
  | .others db => some { s with db := db }

/-- The job as a machine. -/
def machine (config : HeartbeatConfig) : Machine Warner WarnerInput := ⟨step dumps config⟩

variable {dumps} {config : HeartbeatConfig} {s t : Warner} {i : WarnerInput}

/-- A thread that asks which reservations end. -/
theorem query_cases {k : ℕ} {reached : Bool} (h : step dumps config s (.query k reached) = some t) :
    ∃ thread, s.threads[k]? = some thread ∧ thread.phase = .start ∧
      t = s.become k thread (.send ((getReservationEndingSoon
        (if reached then some s.db else none) s.now
        config.reservationExpiringNotifyAtSeconds).getD [])) [] := by
  rw [step] at h
  split at h
  · rename_i thread hthread
    split at h
    · exact ⟨thread, hthread, ‹_›, (Option.some.inj h).symm⟩
    · cases h
  · cases h

/-- A thread that warns of one. -/
theorem send_cases {k : ℕ} {reached : Bool} (h : step dumps config s (.send k reached) = some t) :
    ∃ thread serial data, s.threads[k]? = some thread ∧ thread.phase = .send (serial :: data) ∧
      t = s.become k thread (.send data) (sendDeviceReservationEndingSoon dumps
        (if reached then some s.db else none) serial s.now) := by
  rw [step] at h
  split at h
  · rename_i thread hthread
    split at h
    · exact ⟨thread, _, _, hthread, ‹_›, (Option.some.inj h).symm⟩
    all_goals cases h
  · cases h

/-- **Who is warned**: whoever holds the device. -/
theorem sendDeviceReservationEndingSoon_eq (db : Option Database) (serial : String) (now : ℤ) :
    sendDeviceReservationEndingSoon dumps db serial now =
      match db.bind fun db => db.holder serial with
      | some clientId =>
        if clientId = "" then []
        else [⟨serial, clientId, (dumps (endingSoonEvent serial)).val, now⟩]
      | none => [] := by
  have htext := (dumps (endingSoonEvent serial)).property
  rw [sendDeviceReservationEndingSoon, getReservationClientId_eq]
  cases db.bind fun db => db.holder serial with
  | none =>
    cases db.any fun db => decide (serial ∈ db.device.keys) <;>
      simp [sendSerialJson, packaged, Returned.truthy, sendSerial, htext]
  | some clientId =>
    by_cases hempty : clientId = "" <;>
      simp [sendSerialJson, packaged, Returned.truthy, sendSerial, htext, hempty]

/-! ### On time -/

/-- The thread is not done with a device. -/
def Awaits (serial : String) : WarningPhase → Prop
  | .start => True
  | .send data => serial ∈ data

instance (serial : String) : ∀ phase, Decidable (Awaits serial phase)
  | .start => inferInstanceAs (Decidable True)
  | .send data => inferInstanceAs (Decidable (serial ∈ data))

/-- The database is reached, where the device is concerned. -/
def Reached (serial : String) (s : Warner) : WarnerInput → Prop
  | .query _ reached => reached = true
  | .send k reached => ∀ thread ∈ s.threads[k]?, Awaits serial thread.phase → reached = true
  | .tick _ | .poll | .others _ => True

instance (serial : String) (s : Warner) : ∀ i, Decidable (Reached serial s i)
  | .query _ reached => inferInstanceAs (Decidable (reached = true))
  | .send k reached => inferInstanceAs
      (Decidable (∀ thread ∈ s.threads[k]?, Awaits serial thread.phase → reached = true))
  | .tick _ | .poll | .others _ => inferInstanceAs (Decidable True)

theorem orderly_step (h : s.toPolls.Orderly) (hstep : step dumps config s i = some t) :
    t.toPolls.Orderly := by
  match i with
  | .tick d =>
    obtain rfl := Option.some.inj hstep
    exact h.tick d
  | .poll =>
    obtain rfl := Option.some.inj hstep
    exact h.poll .start
  | .query k reached =>
    obtain ⟨thread, hthread, -, rfl⟩ := query_cases hstep
    exact h.setPhase hthread _
  | .send k reached =>
    obtain ⟨thread, serial, data, hthread, -, rfl⟩ := send_cases hstep
    exact h.setPhase hthread _
  | .others db =>
    obtain rfl := Option.some.inj hstep
    exact h

/-! ### The announcement -/

/-- The warning due for a reservation: to its client, the event `reservation ending
soon` with the serial of its device. -/
def Announces (dumps : Package String → {text : String // text ≠ ""}) (r : ReservationRow)
    (x : Warning) : Prop :=
  x.serial = r.device ∧ x.clientId = r.clientName ∧
    x.contents = (dumps ⟨r.device,
      ⟨[("event", "reservation ending soon"), ("serial", r.device)], by simp⟩⟩).val

/-- **The invariant**, from the moment `base` on at which `before` has been sent:
every moment is covered by a poll, and each of its threads that may list the
reservation is on its way to the device or has warned of it. -/
structure Watched (dumps : Package String → {text : String // text ≠ ""})
    (config : HeartbeatConfig) (r : ReservationRow) (period delay : ℕ) (base : ℤ)
    (before : List Warning) (s : Warner) : Prop where
  covered : s.toPolls.Covered base period
  warned : ∀ thread ∈ s.threads,
    r.till - config.reservationExpiringNotifyAtSeconds < thread.started →
      Awaits r.device thread.phase ∨
        ∃ x ∈ s.sent, Announces dumps r x ∧ thread.started ≤ x.time ∧
          x.time ≤ thread.started + delay
  sent : ∃ new, s.sent = before ++ new ∧ ∀ x ∈ new, x.serial = r.device → Announces dumps r x

variable {r : ReservationRow} {period delay : ℕ} {base : ℤ} {before : List Warning}

/-- A thread goes on: what it sends about the device is right, and it is not done
with the device or has warned of it. -/
theorem Watched.become (h : Watched dumps config r period delay base before s) {k : ℕ}
    {thread : Thread WarningPhase} (hk : s.threads[k]? = some thread) {phase : WarningPhase}
    {sent : List Warning} (hsent : ∀ x ∈ sent, x.serial = r.device → Announces dumps r x)
    (hwarned : r.till - config.reservationExpiringNotifyAtSeconds < thread.started →
      Awaits r.device thread.phase → Awaits r.device phase ∨
        ∃ x ∈ sent, Announces dumps r x ∧ thread.started ≤ x.time ∧
          x.time ≤ thread.started + delay) :
    Watched dumps config r period delay base before (s.become k thread phase sent) := by
  refine ⟨h.covered.setPhase hk phase, fun thread' hthread' hsoon => ?_, ?_⟩
  · rcases Polls.mem_setPhase hthread' with hold | rfl
    · refine (h.warned thread' hold hsoon).imp_right ?_
      rintro ⟨x, hx, hannounces⟩
      exact ⟨x, List.mem_append_left _ hx, hannounces⟩
    · rcases h.warned thread (List.mem_of_getElem? hk) hsoon with hawaits | ⟨x, hx, hannounces⟩
      · refine (hwarned hsoon hawaits).imp_right ?_
        rintro ⟨x, hx, hannounces⟩
        exact ⟨x, List.mem_append_right _ hx, hannounces⟩
      · exact Or.inr ⟨x, List.mem_append_left _ hx, hannounces⟩
  · obtain ⟨new, hnew, hall⟩ := h.sent
    refine ⟨new ++ sent, ?_, fun x hx hserial => ?_⟩
    · show s.sent ++ sent = before ++ (new ++ sent)
      rw [hnew, List.append_assoc]
    · rcases List.mem_append.mp hx with hx | hx
      · exact hall x hx hserial
      · exact hsent x hx hserial

/-- What is sent about the device is the warning due, to the client that holds
it. -/
theorem announces_of_mem (hr : r ∈ s.db.reservations) {serial : String}
    {reached : Bool} {x : Warning} (hx : x ∈ sendDeviceReservationEndingSoon dumps
      (if reached then some s.db else none) serial s.now) (hserial : x.serial = r.device) :
    Announces dumps r x := by
  rw [sendDeviceReservationEndingSoon_eq] at hx
  split at hx
  · rename_i clientId hclient
    split at hx
    · cases hx
    · obtain rfl := List.mem_singleton.mp hx
      obtain rfl : serial = r.device := hserial
      refine ⟨rfl, ?_, rfl⟩
      cases reached with
      | false => cases hclient
      | true =>
        have hholder : s.db.holder r.device = some r.clientName :=
          holder_eq_some.mpr ⟨r, hr, rfl, rfl⟩
        exact Option.some.inj (hclient.symm.trans hholder)
  · cases hx

/-- A step that meets the conditions keeps the invariant, as long as the
reservation is there. -/
theorem watched_step (h : Watched dumps config r period delay base before s)
    (horderly : s.toPolls.Orderly) (hr : r ∈ s.db.reservations) (hclient : r.clientName ≠ "")
    (honTime : s.OnTime (Awaits r.device) period delay)
    (honTime' : t.OnTime (Awaits r.device) period delay)
    (hreached : Reached r.device s i) (hstep : step dumps config s i = some t) :
    Watched dumps config r period delay base before t := by
  match i with
  | .tick d =>
    obtain rfl := Option.some.inj hstep
    exact ⟨h.covered.tick horderly honTime'.polled, h.warned, h.sent⟩
  | .poll =>
    obtain rfl := Option.some.inj hstep
    refine ⟨h.covered.poll .start, fun thread hthread hsoon => ?_, h.sent⟩
    rcases Polls.mem_poll hthread with hold | rfl
    · exact h.warned thread hold hsoon
    · exact Or.inl trivial
  | .query k reached =>
    obtain ⟨thread, hthread, -, rfl⟩ := query_cases hstep
    obtain rfl : reached = true := hreached
    refine h.become hthread (fun x hx => absurd hx List.not_mem_nil) fun hsoon _ => Or.inl ?_
    -- it asks after its start, so the reservation is among those it finds
    have hstarted := horderly.started thread (List.mem_of_getElem? hthread)
    rw [if_pos rfl, getReservationEndingSoon_eq]
    refine List.mem_map_of_mem (List.mem_filter.mpr ⟨hr, decide_eq_true ?_⟩)
    omega
  | .send k reached =>
    obtain ⟨thread, serial, data, hthread, hphase, rfl⟩ := send_cases hstep
    refine h.become hthread (fun x hx => announces_of_mem hr hx) fun hsoon hawaits => ?_
    have hmem : thread ∈ s.threads := List.mem_of_getElem? hthread
    obtain rfl : reached = true := hreached thread hthread hawaits
    have hpassed := honTime.passed thread hmem hawaits
    have hstarted := horderly.started thread hmem
    rw [hphase] at hawaits
    rcases List.mem_cons.mp hawaits with hthis | hrest
    · subst hthis
      have hholder : s.db.holder r.device = some r.clientName :=
        holder_eq_some.mpr ⟨r, hr, rfl, rfl⟩
      refine Or.inr ⟨⟨r.device, r.clientName, (dumps (endingSoonEvent r.device)).val, s.now⟩, ?_,
        ⟨rfl, rfl, rfl⟩, hstarted, hpassed⟩
      rw [if_pos rfl, sendDeviceReservationEndingSoon_eq, Option.bind_some, hholder]
      simp [hclient]
    · exact Or.inl hrest
  | .others db =>
    obtain rfl := Option.some.inj hstep
    exact ⟨h.covered, h.warned, h.sent⟩

/-- **No reservation of a client with a name ends unannounced.** In every run from a
moment at which a reservation does not end soon, with whatever happens to the database but this: the
reservation is not touched, all along there has been a poll in the last `period`
seconds, and no thread that is not done with its device is more than `delay`
seconds old, and the database is reached for it. Then everything that is sent about
the device is the warning due, to its client; and by `period + delay` seconds after
the reservation begins to end soon it is sent. -/
theorem announced_of_onTime {db : Database} {now : ℤ}
    (hstart : (machine dumps config).Reaches (start db now) s)
    (hclient : r.clientName ≠ "")
    (hearly : s.now ≤ r.till - config.reservationExpiringNotifyAtSeconds)
    {is : List WarnerInput} (hrun : (machine dumps config).run s is = some t)
    (hr : (machine dumps config).Along (fun s => r ∈ s.db.reservations) s is)
    (honTime : (machine dumps config).Along (fun s => s.OnTime (Awaits r.device) period delay) s is)
    (hreached : (machine dumps config).Meets (Reached r.device) s is) :
    (∃ new, t.sent = s.sent ++ new ∧ ∀ x ∈ new, x.serial = r.device → Announces dumps r x) ∧
      (r.till - config.reservationExpiringNotifyAtSeconds + period + delay < t.now →
        ∃ x ∈ t.sent, Announces dumps r x ∧
          r.till - config.reservationExpiringNotifyAtSeconds < x.time ∧
          x.time ≤ r.till - config.reservationExpiringNotifyAtSeconds + period + delay) := by
  have horderly : s.toPolls.Orderly :=
    hstart.invariant (I := fun s => s.toPolls.Orderly) (fun _ _ _ h hstep => orderly_step h hstep)
      (Polls.orderly_start now)
  have hbegin : Watched dumps config r period delay s.polled s.sent s := by
    refine ⟨Polls.covered_polled honTime.head.polled, fun thread hthread hsoon => ?_, [],
      (List.append_nil _).symm, fun x hx => absurd hx List.not_mem_nil⟩
    have hstarted := horderly.started thread hthread
    omega
  have hwatched : Watched dumps config r period delay s.polled s.sent t ∧ t.toPolls.Orderly := by
    refine Machine.invariant_of_meets
      (I := fun t => Watched dumps config r period delay s.polled s.sent t ∧ t.toPolls.Orderly) ?_
      ⟨hbegin, horderly⟩ ((hr.meets.and honTime.meets).and hreached) hrun
    rintro u i v ⟨hwatched, horderly⟩ ⟨⟨⟨hr, -⟩, hon, hon'⟩, hreached⟩ hstep
    exact ⟨watched_step hwatched horderly hr hclient hon (hon' v hstep) hreached hstep,
      orderly_step horderly hstep⟩
  refine ⟨hwatched.1.sent, fun hlate => ?_⟩
  have hpolled := horderly.polled
  have hbase : s.polled ≤ r.till - config.reservationExpiringNotifyAtSeconds := by omega
  obtain ⟨thread, hthread, hafter, hsoon, hdone⟩ :=
    hwatched.1.covered.exists_after (honTime.last hrun) hbase hlate
  obtain ⟨x, hx, hannounces, hle, hle'⟩ :=
    (hwatched.1.warned thread hthread hafter).resolve_left hdone
  exact ⟨x, hx, hannounces, by omega, by omega⟩

end Dumps

/-- `json.dumps`, on the event about the device `A`. -/
def dumpsA (_ : Package String) : {text : String // text ≠ ""} :=
  ⟨"\x7b\"serial\": \"A\", \"contents\": \x7b\"event\": \"reservation ending soon\", " ++
    "\"serial\": \"A\"\x7d\x7d", by decide⟩

/-- Two polls, the second of them after the reservation has begun to end soon. -/
def twoPolls : List WarnerInput :=
  [.tick 20, .poll, .query 0 true, .tick 25, .poll, .query 1 true, .tick 2, .send 1 true, .tick 20]

/-- The reservation until 3000 is announced at 1827. -/
theorem twoPolls_announced : ∃ t,
    (machine dumpsA {}).run (start Control.oneReserved 1780) twoPolls = some t ∧
      ∃ x ∈ t.sent, Announces dumpsA ⟨"A", "client", 3000⟩ x ∧ 1800 < x.time ∧
        x.time ≤ 1800 + 30 + 5 := by
  obtain ⟨t, hrun, hnow⟩ : ∃ t, (machine dumpsA {}).run (start Control.oneReserved 1780) twoPolls =
      some t ∧ (1800 + 30 + 5 : ℤ) < t.now := ⟨_, rfl, by decide⟩
  have hr : (machine dumpsA {}).Along (fun s => ⟨"A", "client", 3000⟩ ∈ s.db.reservations)
      (start Control.oneReserved 1780) twoPolls := by decide
  have honTime : (machine dumpsA {}).Along (fun s => s.OnTime (Awaits "A") 30 5)
      (start Control.oneReserved 1780) twoPolls := by decide
  have hreached : (machine dumpsA {}).Meets (Reached "A") (start Control.oneReserved 1780)
      twoPolls := by decide
  exact ⟨t, hrun, (announced_of_onTime (Machine.Reaches.refl _) (by decide) (by decide) hrun hr
    honTime hreached).2 hnow⟩

end Warner

end UsbipIce
