import UsbipIce.Client.Tenant
import UsbipIce.Control.Endpoints
import UsbipIce.Lib.Refinement

/-!
# The calls of a client, over HTTP

Between `BaseAPI` and `Control` there are a request and a response with JSON in
them, and either may get lost or come too late: after 20 seconds `requests.get`
raises, and the call returns `False`, whatever control still makes of the request.
What arrives is read as it is: the loops of `BaseAPI` go over whatever the JSON is,
and take three values out of each row by their keys.

All this comes to the calls of `UsbipIce.Tenant`, in which rows and serials are
handed over as such and a call either is answered or fails. Every run leads to the
same database, the same maps of the client and the same events as some run there,
call by call in corresponding places (`UsbipIce.Remote.simulates_tenant`). So no
call raises, and none goes wrong over what it reads; and what holds of all runs of
`UsbipIce.Tenant` holds over HTTP.

A call that has timed out stands for one whose answer fails, and that only when
the answer is due: control may go through it long after it has returned `False`.
-/

namespace UsbipIce

open Lib Utils Database

/-! ### Calls -/

/-- Where a call is. -/
inductive CallPhase where
  /-- The request is on its way. -/
  | requesting (json : Json Number)
  /-- Control has gone through the database. It tells of these serials, and then
  the response is on its way. -/
  | handling (told : List String) (response : Http.Response)
  /-- In the loop of `BaseAPI.reserve`. -/
  | adding (rows : List (Json Number)) (out : List String)
  /-- In the loop of `BaseAPI.end`. -/
  | removing (serials : List (Json Number)) (json : Json Number)
  | returned (value : Json Number)
  /-- Has raised, or met a row without the three values. -/
  | raised

/-- A call of `reserve`, `end` or `endAll`; `waiting` is `false` once it has timed
out and returned `False`. -/
structure HttpCall where
  endpoint : Endpoint
  waiting : Bool
  phase : CallPhase

namespace HttpCall

/-- What a `for` goes over, unless it raises: of an object, its keys. -/
def iterated : Json Number → Option (List (Json Number))
  | .array l => some l
  | .object fields => some (fields.map fun f => .str f.1)
  | .str s => some (s.toList.map fun c => .str (String.singleton c))
  | .null | .bool _ | .number _ => none

/-- `row["serial"]`, `row["ip"]` and `row["serverport"]`. -/
def rowOf : Json Number → Option ReservedRow
  | .object fields =>
    match Json.get fields "serial", Json.get fields "ip", Json.get fields "serverport" with
    | some (.str serial), some (.str ip), some (.number (.int port)) => some ⟨serial, ip, port⟩
    | _, _, _ => none
  | .null | .bool _ | .number _ | .str _ | .array _ => none

/-- How a call goes on with what `requestControl` has returned. -/
def receive (data : Json Number) : Endpoint → CallPhase
  | .reserve =>
    if data matches .bool false then .returned (.bool false)
    else (iterated data).elim .raised fun rows => .adding rows []
  | .endSome | .endAll =>
    if data matches .bool false then .returned (.bool false)
    else (iterated data).elim .raised fun serials => .removing serials data

/-- How a call goes on with a response, if it still waits for it. -/
def respond (c : HttpCall) (response : Http.Response) : CallPhase :=
  if c.waiting then receive (Http.request (some response)) c.endpoint else .returned (.bool false)

/-- A response that reads as `False`, or is not waited for. -/
theorem respond_of_false {c : HttpCall} {response : Http.Response}
    (h : Http.request (some response) = .bool false) :
    c.respond response = .returned (.bool false) := by
  rw [respond, h]
  split
  · cases c.endpoint with
    | reserve | endSome | endAll => rfl
  · rfl

/-- A response to an end that is waited for. -/
theorem respond_serials {c : HttpCall} (hwaiting : c.waiting = true) (he : c.endpoint ≠ .reserve)
    (data : List String) :
    c.respond ⟨200, some (serialsJson data)⟩ =
      .removing (data.map Json.str) (serialsJson data) := by
  rw [respond, if_pos hwaiting]
  cases hendpoint : c.endpoint with
  | reserve => exact absurd hendpoint he
  | endSome | endAll => rfl

end HttpCall

/-! ### Runs -/

/-- A client, with the database and with what is under way between it and
control. -/
structure Remote where
  name : String
  database : Database
  client : Client
  calls : List HttpCall
  /-- The serials of the 'reservation end' events sent and not handled yet. -/
  events : List String

/-- What a client and control are driven by. -/
inductive RemoteInput where
  | reserve (amount kind args : Json Number)
  | endSome (serials : List String)
  | endAll
  /-- The request of call `k` arrives, and control goes through the database. -/
  | control (k : ℕ) (c : Circumstances)
  /-- Call `k` goes on, at the client or at control. -/
  | run (k : ℕ)
  /-- Call `k` has waited for 20 seconds. -/
  | timeOut (k : ℕ)
  /-- The request or the response of call `k` is lost. -/
  | lose (k : ℕ)
  /-- The next event is handled. -/
  | deliver
  /-- A worker writes the status of a device. -/
  | updateDeviceStatus (serial : String) (status : DeviceState)

namespace Remote

/-- A client with nothing reserved. -/
def start (name : String) (database : Database) : Remote where
  name := name
  database := database
  client := .start
  calls := []
  events := []

/-- A request is sent. -/
def send (s : Remote) (endpoint : Endpoint) (json : Json Number) : Remote :=
  { s with calls := s.calls ++ [⟨endpoint, true, .requesting json⟩] }

/-- Call `k` is in another phase. -/
def become (s : Remote) (k : ℕ) (c : HttpCall) (phase : CallPhase) : Remote :=
  { s with calls := s.calls.set k { c with phase := phase } }

/-- What a request comes to. -/
def arrive (s : Remote) (k : ℕ) (c : HttpCall) (outcome : Endpoint.Outcome) : Remote :=
  { s.become k c (.handling outcome.told outcome.response) with database := outcome.database }

/-- A request arrives. -/
def control (s : Remote) (k : ℕ) (circumstances : Circumstances) (c : HttpCall) : Option Remote :=
  match c.phase with
  | .requesting json => some (s.arrive k c (c.endpoint.handle s.database circumstances json))
  | .handling .. | .adding .. | .removing .. | .returned _ | .raised => none

/-- A call goes on. -/
def stepCall (s : Remote) (k : ℕ) (c : HttpCall) : Option Remote :=
  match c.phase with
  | .handling (serial :: told) response =>
    some { s.become k c (.handling told response) with events := s.events ++ [serial] }
  | .handling [] response => some (s.become k c (c.respond response))
  | .adding (row :: rows) out =>
    match HttpCall.rowOf row with
    | none => some (s.become k c .raised)
    | some row =>
      some { s.become k c (.adding rows (out ++ [row.serial])) with
        client := s.client.addRow row }
  | .adding [] out => some (s.become k c (.returned (serialsJson out)))
  | .removing (.str serial :: serials) json =>
    some { s.become k c (.removing serials json) with client := s.client.removeSerial serial }
  -- no other key is in the map, and a list or a dictionary cannot be one
  | .removing (.null :: serials) json | .removing (.bool _ :: serials) json
  | .removing (.number _ :: serials) json => some (s.become k c (.removing serials json))
  | .removing (.array _ :: _) _ | .removing (.object _ :: _) _ => some (s.become k c .raised)
  | .removing [] json => some (s.become k c (.returned json))
  | .requesting _ | .returned _ | .raised => none

/-- A call gives up waiting. -/
def timeOut (s : Remote) (k : ℕ) (c : HttpCall) : Option Remote :=
  match c.phase with
  | .requesting _ | .handling .. =>
    some { s with calls := s.calls.set k { c with waiting := false } }
  | .adding .. | .removing .. | .returned _ | .raised => none

/-- A message of a call is lost. -/
def lose (s : Remote) (k : ℕ) (c : HttpCall) : Option Remote :=
  match c.phase with
  | .requesting _ | .handling [] _ => some (s.become k c (.returned (.bool false)))
  | .handling (_ :: _) _ | .adding .. | .removing .. | .returned _ | .raised => none

/-- One step. -/
def step (s : Remote) : RemoteInput → Option Remote
  | .reserve amount kind args =>
    some (s.send .reserve (Endpoint.reserveJson amount s.name kind args))
  | .endSome serials => some (s.send .endSome (Endpoint.endJson s.name serials))
  | .endAll => some (s.send .endAll (Endpoint.endAllJson s.name))
  | .control k c => s.calls[k]?.bind (s.control k c)
  | .run k => s.calls[k]?.bind (s.stepCall k)
  | .timeOut k => s.calls[k]?.bind (s.timeOut k)
  | .lose k => s.calls[k]?.bind (s.lose k)
  | .deliver =>
    match s.events with
    | [] => none
    | serial :: events =>
      some { s with
        client := s.client.removeSerial serial
        events := events }
  | .updateDeviceStatus serial status =>
    (s.database.updateDeviceStatus serial status).map fun database =>
      { s with database := database }

/-- A client and control over HTTP as a machine. -/
def machine : Machine Remote RemoteInput := ⟨step⟩

end Remote

/-! ### What a call stands for -/

/-- **The call that a call over HTTP stands for.** -/
inductive HttpCall.Stands (name : String) : HttpCall → ApiCall → Prop where
  | reserving {waiting : Bool} {amount kind args : Json Number} {n : ℤ}
      (h : ∀ m, Endpoint.amountOf amount = some m → m = n) :
      Stands name ⟨.reserve, waiting, .requesting (Endpoint.reserveJson amount name kind args)⟩
        (.reserving n)
  | ending {waiting : Bool} {serials : List String} :
      Stands name ⟨.endSome, waiting, .requesting (Endpoint.endJson name serials)⟩
        (.ending (some serials))
  | endingAll {waiting : Bool} :
      Stands name ⟨.endAll, waiting, .requesting (Endpoint.endAllJson name)⟩ (.ending none)
  | answering {waiting : Bool} {rows : List ReservedRow} :
      Stands name ⟨.reserve, waiting, .handling [] ⟨200, some (Endpoint.rowsJson rows)⟩⟩
        (.answering rows)
  | notifying {e : Endpoint} {waiting : Bool} {rows : List EndedRow} {data : List String}
      (he : e ≠ .reserve) :
      Stands name ⟨e, waiting, .handling (rows.map EndedRow.serial)
        ⟨200, some (serialsJson data)⟩⟩ (.notifying rows data)
  | refused {e : Endpoint} {waiting : Bool} {response : Http.Response}
      (h : Http.request (some response) = .bool false) :
      Stands name ⟨e, waiting, .handling [] response⟩ .failed
  | adding {e : Endpoint} {waiting : Bool} {rows : List ReservedRow} {out : List String} :
      Stands name ⟨e, waiting, .adding (rows.map fun row => row.dict.json) out⟩ (.adding rows out)
  | removing {e : Endpoint} {waiting : Bool} {serials data : List String} :
      Stands name ⟨e, waiting, .removing (serials.map Json.str) (serialsJson data)⟩
        (.removing serials data)
  | reserved {e : Endpoint} {waiting : Bool} {out : List String} :
      Stands name ⟨e, waiting, .returned (serialsJson out)⟩ (.reserved out)
  | ended {e : Endpoint} {waiting : Bool} {data : List String} :
      Stands name ⟨e, waiting, .returned (serialsJson data)⟩ (.ended data)
  | failed {e : Endpoint} {waiting : Bool} :
      Stands name ⟨e, waiting, .returned (.bool false)⟩ .failed

namespace Remote

/-- **The states that a state stands for**: the same tables, maps and events, and
the calls that the calls stand for. -/
structure Stands (s : Remote) (t : Tenant) : Prop where
  name : t.name = s.name
  database : t.database = s.database
  client : t.client = s.client
  events : t.events = s.events
  calls : List.Forall₂ (HttpCall.Stands s.name) s.calls t.calls

theorem stands_start (name : String) (database : Database) :
    (start name database).Stands (Tenant.start name database) :=
  ⟨rfl, rfl, rfl, rfl, List.Forall₂.nil⟩

variable {s : Remote} {t : Tenant} {k : ℕ} {c : HttpCall} {c' : ApiCall}

/-- A new call stands for a new call. -/
theorem Stands.send (h : s.Stands t) {e : Endpoint} {json : Json Number}
    (hc : HttpCall.Stands s.name ⟨e, true, .requesting json⟩ c') {t' : Tenant}
    (hname : t'.name = t.name) (hdatabase : t'.database = t.database)
    (hclient : t'.client = t.client) (hevents : t'.events = t.events)
    (hcalls : t'.calls = t.calls ++ [c']) : (s.send e json).Stands t' where
  name := hname.trans h.name
  database := hdatabase.trans h.database
  client := hclient.trans h.client
  events := hevents.trans h.events
  calls := hcalls ▸ forall₂_concat h.calls hc

/-- A call goes on, and so does the one it stands for. -/
theorem Stands.set (h : s.Stands t) {new : HttpCall} (hc : HttpCall.Stands s.name new c')
    {s' : Remote} {t' : Tenant} (hname : s'.name = s.name) (hcalls : s'.calls = s.calls.set k new)
    (hname' : t'.name = t.name) (hcalls' : t'.calls = t.calls.set k c')
    (hdatabase : t'.database = s'.database) (hclient : t'.client = s'.client)
    (hevents : t'.events = s'.events) : s'.Stands t' where
  name := hname'.trans (h.name.trans hname.symm)
  database := hdatabase
  client := hclient
  events := hevents
  calls := by
    rw [hname, hcalls, hcalls']
    exact forall₂_set h.calls k hc

/-- A call goes on, and the one it stands for stays. -/
theorem Stands.set_left (h : s.Stands t) (hk : t.calls[k]? = some c') {new : HttpCall}
    (hc : HttpCall.Stands s.name new c') {s' : Remote} (hname : s'.name = s.name)
    (hcalls : s'.calls = s.calls.set k new) (hdatabase : s'.database = s.database)
    (hclient : s'.client = s.client) (hevents : s'.events = s.events) : s'.Stands t := by
  have hset : t.calls = t.calls.set k c' := by
    obtain ⟨hlt, rfl⟩ := List.getElem?_eq_some_iff.mp hk
    exact (List.set_getElem_self hlt).symm
  exact h.set hc hname hcalls rfl hset (h.database.trans hdatabase.symm)
    (h.client.trans hclient.symm) (h.events.trans hevents.symm)

/-! ### The calls of the other machine -/

theorem run_control (hk : t.calls[k]? = some c') {now : ℤ} {res : List ReservedRow} {t' : Tenant}
    (h : t.control k now res c' = some t') :
    Tenant.machine.run t [.control k now res] = some t' := by
  rw [Machine.run_singleton]
  exact Option.bind_eq_some_iff.mpr ⟨c', hk, h⟩

theorem run_run (hk : t.calls[k]? = some c') {t' : Tenant} (h : t.stepCall k c' = some t') :
    Tenant.machine.run t [.run k] = some t' := by
  rw [Machine.run_singleton]
  exact Option.bind_eq_some_iff.mpr ⟨c', hk, h⟩

theorem run_lose (hk : t.calls[k]? = some c') {t' : Tenant} (h : t.lose k c' = some t') :
    Tenant.machine.run t [.lose k] = some t' := by
  rw [Machine.run_singleton]
  exact Option.bind_eq_some_iff.mpr ⟨c', hk, h⟩

/-- A reserving transaction that is gone through. -/
theorem run_reserving {amount now : ℤ} {res rows : List ReservedRow} {database : Database}
    (hk : t.calls[k]? = some (.reserving amount))
    (hmade : t.database.makeReservations amount t.name now res = some (database, rows)) :
    ∃ t' : Tenant, Tenant.machine.run t [.control k now res] = some t' ∧ t'.name = t.name ∧
      t'.database = database ∧ t'.client = t.client ∧ t'.events = t.events ∧
      t'.calls = t.calls.set k (.answering rows) := by
  have hlimit : 0 ≤ amount ∧ IsLimit amount.toNat t.database.available res := by
    by_contra hno
    rw [makeReservations, dif_neg hno] at hmade
    cases hmade
  have hcontrol : t.control k now res (.reserving amount) = some { t with
      database := database
      calls := t.calls.set k (.answering rows)
      asked := t.asked.filter (· ∉ rows.map ReservedRow.serial)
      creator := fun serial =>
        if serial ∈ rows.map ReservedRow.serial then some k else t.creator serial } := by
    rw [Tenant.control, if_neg fun hno => hno.2 hlimit.2, hmade]
  exact ⟨_, run_control hk hcontrol, rfl, rfl, rfl, rfl, rfl⟩

/-- Control has told of everything, and its answer is under way. -/
theorem run_notified {data : List String} (hk : t.calls[k]? = some (.notifying [] data))
    {js : List TenantInput} {t' : Tenant}
    (h : Tenant.machine.run { t with calls := t.calls.set k (.answeringEnd data) } js = some t') :
    Tenant.machine.run t (.run k :: js) = some t' :=
  Machine.run_cons_eq_some.mpr ⟨_, Option.bind_eq_some_iff.mpr ⟨_, hk, rfl⟩, h⟩

theorem run_deliver {serial : String} {events : List String}
    (hevents : t.events = serial :: events) :
    Tenant.machine.run t [.deliver] = some { t with
      client := t.client.removeSerial serial
      events := events } := by
  rw [Machine.run_singleton]
  obtain ⟨_, _, _, _, _, _, _⟩ := t
  subst hevents
  rfl

/-! ### Steps -/

/-- The event that a delivery handles. -/
theorem step_deliver {s' : Remote} (hstep : s.step .deliver = some s') :
    ∃ serial events, s.events = serial :: events ∧
      s' = { s with
        client := s.client.removeSerial serial
        events := events } := by
  obtain ⟨_, _, _, _, events⟩ := s
  cases events with
  | nil => cases hstep
  | cons serial events => exact ⟨serial, events, rfl, (Option.some.inj hstep).symm⟩

/-- A request to end reservations arrives. -/
theorem simulates_ended (h : s.Stands t) {serials : Option (List String)}
    (hk : t.calls[k]? = some (.ending serials)) (hreserve : c.endpoint ≠ .reserve)
    (circumstances : Circumstances) {ended : Database × List EndedRow} (now : ℤ)
    (res : List ReservedRow)
    (hended : t.control k now res (.ending serials) = some { t with
      database := ended.1
      calls := t.calls.set k (.notifying ended.2 (ended.2.map EndedRow.serial)) }) :
    ∃ js t', Tenant.machine.run t js = some t' ∧
      (s.arrive k c (if circumstances.reached then
        ⟨ended.1, ended.2.map EndedRow.serial,
          ⟨200, some (serialsJson (ended.2.map EndedRow.serial))⟩⟩
      else ⟨s.database, [], ⟨500, none⟩⟩)).Stands t' := by
  cases circumstances.reached with
  | false =>
    refine ⟨[.lose k], _, run_lose hk rfl, ?_⟩
    exact h.set (.refused rfl)
      rfl rfl rfl rfl h.database h.client h.events
  | true =>
    refine ⟨[.control k now res], _, run_control hk hended, ?_⟩
    exact h.set (.notifying hreserve) rfl rfl rfl rfl rfl
      h.client h.events

/-- **A request arrives**: the transaction is the same, or there is none and the
call fails. -/
theorem simulates_control (h : s.Stands t) (hk : t.calls[k]? = some c')
    (hc : HttpCall.Stands s.name c c') {circumstances : Circumstances} {s' : Remote}
    (hstep : s.control k circumstances c = some s') :
    ∃ js t', Tenant.machine.run t js = some t' ∧ s'.Stands t' := by
  cases hc with
  | @reserving waiting amount kind args n hn =>
    have harrive : s.arrive k _ (Endpoint.reserve.handle s.database circumstances
      (Endpoint.reserveJson amount s.name kind args)) = s' := Option.some.inj hstep
    rcases Endpoint.handle_reserve s.database circumstances amount s.name kind args with
      ⟨m, db', rows, hm, hmade, heq⟩ | ⟨response, hfalse, heq⟩
    · obtain rfl := hn m hm
      rw [heq] at harrive
      subst harrive
      rw [← h.database, ← h.name] at hmade
      obtain ⟨t', hrun, hname, hdatabase, hclient, hevents, hcalls⟩ := run_reserving hk hmade
      exact ⟨_, t', hrun, h.set (.answering) rfl rfl hname hcalls hdatabase
        (hclient.trans h.client) (hevents.trans h.events)⟩
    · rw [heq] at harrive
      subst harrive
      exact ⟨[.lose k], _, run_lose hk rfl,
        h.set (.refused hfalse) rfl rfl rfl rfl h.database h.client h.events⟩
  | @ending waiting serials =>
    have harrive : s.arrive k _ (Endpoint.endSome.handle s.database circumstances
      (Endpoint.endJson s.name serials)) = s' := Option.some.inj hstep
    rw [Endpoint.handle_endSome] at harrive
    subst harrive
    refine simulates_ended h hk (show Endpoint.endSome ≠ .reserve by decide) circumstances 0 [] ?_
    rw [← h.database, ← h.name]
    rfl
  | @endingAll waiting =>
    have harrive : s.arrive k _ (Endpoint.endAll.handle s.database circumstances
      (Endpoint.endAllJson s.name)) = s' := Option.some.inj hstep
    rw [Endpoint.handle_endAll] at harrive
    subst harrive
    refine simulates_ended h hk (show Endpoint.endAll ≠ .reserve by decide) circumstances 0 [] ?_
    rw [← h.database, ← h.name]
    rfl
  | answering | notifying | refused | adding | removing | reserved | ended | failed => cases hstep

/-- The answer of control comes to the client, which may not wait for it any
more. -/
theorem simulates_answering {waiting : Bool} {rows : List ReservedRow} (h : s.Stands t)
    (hk : t.calls[k]? = some (.answering rows)) :
    ∃ js t', Tenant.machine.run t js = some t' ∧
      (s.become k ⟨.reserve, waiting, .handling [] ⟨200, some (Endpoint.rowsJson rows)⟩⟩
        (HttpCall.respond ⟨.reserve, waiting, .handling [] ⟨200, some (Endpoint.rowsJson rows)⟩⟩
          ⟨200, some (Endpoint.rowsJson rows)⟩)).Stands t' := by
  cases waiting with
  | false =>
    exact ⟨[.lose k], _, run_lose hk rfl,
      h.set .failed rfl rfl rfl rfl h.database h.client h.events⟩
  | true =>
    exact ⟨[.run k], _, run_run hk rfl,
      h.set .adding rfl rfl rfl rfl h.database h.client h.events⟩

/-- And so does the answer to an end. -/
theorem simulates_answeringEnd {e : Endpoint} (he : e ≠ .reserve) {waiting : Bool}
    {phase : CallPhase} {data : List String} (h : s.Stands t)
    (hk : t.calls[k]? = some (.notifying [] data)) :
    ∃ js t', Tenant.machine.run t js = some t' ∧
      (s.become k ⟨e, waiting, phase⟩ (HttpCall.respond ⟨e, waiting, phase⟩
        ⟨200, some (serialsJson data)⟩)).Stands t' := by
  have hanswering : (t.calls.set k (.answeringEnd data))[k]? = some (.answeringEnd data) :=
    List.getElem?_set_self (List.getElem?_eq_some_iff.mp hk).1
  cases waiting with
  | false =>
    have hrun := run_notified hk (run_lose hanswering rfl)
    exact ⟨_, _, hrun, h.set .failed rfl rfl rfl (List.set_set _) h.database h.client h.events⟩
  | true =>
    rw [HttpCall.respond_serials rfl he]
    have hrun := run_notified hk (run_run hanswering rfl)
    exact ⟨_, _, hrun, h.set .removing rfl rfl rfl (List.set_set _) h.database h.client h.events⟩

/-- **A call goes on.** -/
theorem simulates_stepCall (h : s.Stands t) (hk : t.calls[k]? = some c')
    (hc : HttpCall.Stands s.name c c') {s' : Remote} (hstep : s.stepCall k c = some s') :
    ∃ js t', Tenant.machine.run t js = some t' ∧ s'.Stands t' := by
  cases hc with
  | reserving | ending | endingAll | reserved | ended | failed => cases hstep
  | answering =>
    obtain rfl := Option.some.inj hstep
    exact simulates_answering h hk
  | @notifying e waiting rows data he =>
    cases rows with
    | nil =>
      obtain rfl := Option.some.inj hstep
      exact simulates_answeringEnd he h hk
    | cons row rows =>
      obtain rfl := Option.some.inj hstep
      exact ⟨[.run k], _, run_run hk rfl,
        h.set (.notifying he) rfl rfl rfl rfl h.database h.client
          (congrArg (· ++ [row.serial]) h.events)⟩
  | @refused e waiting response hfalse =>
    obtain rfl := Option.some.inj hstep
    rw [HttpCall.respond_of_false hfalse]
    exact ⟨[], t, rfl, h.set_left hk .failed rfl rfl rfl rfl rfl⟩
  | @adding e waiting rows out =>
    cases rows with
    | nil =>
      obtain rfl := Option.some.inj hstep
      exact ⟨[.run k], _, run_run hk rfl,
        h.set .reserved rfl rfl rfl rfl h.database h.client h.events⟩
    | cons row rows =>
      obtain rfl := Option.some.inj hstep
      exact ⟨[.run k], _, run_run hk rfl,
        h.set .adding rfl rfl rfl rfl h.database (congrArg (Client.addRow · row) h.client)
          h.events⟩
  | @removing e waiting serials data =>
    cases serials with
    | nil =>
      obtain rfl := Option.some.inj hstep
      exact ⟨[.run k], _, run_run hk rfl,
        h.set .ended rfl rfl rfl rfl h.database h.client h.events⟩
    | cons serial serials =>
      obtain rfl := Option.some.inj hstep
      exact ⟨[.run k], _, run_run hk rfl,
        h.set .removing rfl rfl rfl rfl h.database
          (congrArg (Client.removeSerial · serial) h.client) h.events⟩

/-- **A call gives up waiting**, which the one it stands for does not. -/
theorem simulates_timeOut (h : s.Stands t) (hk : t.calls[k]? = some c')
    (hc : HttpCall.Stands s.name c c') {s' : Remote} (hstep : s.timeOut k c = some s') :
    s'.Stands t := by
  cases hc with
  | reserving hn =>
    obtain rfl := Option.some.inj hstep
    exact h.set_left hk (.reserving hn) rfl rfl rfl rfl rfl
  | ending =>
    obtain rfl := Option.some.inj hstep
    exact h.set_left hk .ending rfl rfl rfl rfl rfl
  | endingAll =>
    obtain rfl := Option.some.inj hstep
    exact h.set_left hk .endingAll rfl rfl rfl rfl rfl
  | answering =>
    obtain rfl := Option.some.inj hstep
    exact h.set_left hk .answering rfl rfl rfl rfl rfl
  | notifying he =>
    obtain rfl := Option.some.inj hstep
    exact h.set_left hk (.notifying he) rfl rfl rfl rfl rfl
  | refused hfalse =>
    obtain rfl := Option.some.inj hstep
    exact h.set_left hk (.refused hfalse) rfl rfl rfl rfl rfl
  | adding | removing | reserved | ended | failed => cases hstep

/-- **A message is lost.** -/
theorem simulates_lose (h : s.Stands t) (hk : t.calls[k]? = some c')
    (hc : HttpCall.Stands s.name c c') {s' : Remote} (hstep : s.lose k c = some s') :
    ∃ js t', Tenant.machine.run t js = some t' ∧ s'.Stands t' := by
  cases hc with
  | reserving | ending | endingAll | answering =>
    obtain rfl := Option.some.inj hstep
    exact ⟨[.lose k], _, run_lose hk rfl,
      h.set .failed rfl rfl rfl rfl h.database h.client h.events⟩
  | @notifying e waiting rows data he =>
    cases rows with
    | nil =>
      obtain rfl := Option.some.inj hstep
      have hanswering : (t.calls.set k (.answeringEnd data))[k]? = some (.answeringEnd data) :=
        List.getElem?_set_self (List.getElem?_eq_some_iff.mp hk).1
      have hrun := run_notified hk (run_lose hanswering rfl)
      exact ⟨_, _, hrun, h.set .failed rfl rfl rfl (List.set_set _) h.database h.client h.events⟩
    | cons row rows => cases hstep
  | refused =>
    obtain rfl := Option.some.inj hstep
    exact ⟨[], t, rfl, h.set_left hk .failed rfl rfl rfl rfl rfl⟩
  | adding | removing | reserved | ended | failed => cases hstep

/-- **Every step stands for steps of the other machine.** -/
theorem simulates : machine.Simulates Tenant.machine Stands := by
  intro s i s' t h hstep
  cases i with
  | reserve amount kind args =>
    obtain rfl := Option.some.inj hstep
    refine ⟨[.reserve ((Endpoint.amountOf amount).getD 0)], _, rfl, ?_⟩
    exact h.send (.reserving fun m hm => by rw [hm]; rfl) rfl rfl rfl rfl rfl
  | endSome serials =>
    obtain rfl := Option.some.inj hstep
    exact ⟨[.endSome serials], _, rfl, h.send .ending rfl rfl rfl rfl rfl⟩
  | endAll =>
    obtain rfl := Option.some.inj hstep
    exact ⟨[.endAll], _, rfl, h.send .endingAll rfl rfl rfl rfl rfl⟩
  | control k circumstances =>
    obtain ⟨c, hcall, hstep⟩ := Option.bind_eq_some_iff.mp hstep
    obtain ⟨c', hk, hc⟩ := exists_getElem?_of_forall₂ h.calls hcall
    exact simulates_control h hk hc hstep
  | run k =>
    obtain ⟨c, hcall, hstep⟩ := Option.bind_eq_some_iff.mp hstep
    obtain ⟨c', hk, hc⟩ := exists_getElem?_of_forall₂ h.calls hcall
    exact simulates_stepCall h hk hc hstep
  | timeOut k =>
    obtain ⟨c, hcall, hstep⟩ := Option.bind_eq_some_iff.mp hstep
    obtain ⟨c', hk, hc⟩ := exists_getElem?_of_forall₂ h.calls hcall
    exact ⟨[], t, rfl, simulates_timeOut h hk hc hstep⟩
  | lose k =>
    obtain ⟨c, hcall, hstep⟩ := Option.bind_eq_some_iff.mp hstep
    obtain ⟨c', hk, hc⟩ := exists_getElem?_of_forall₂ h.calls hcall
    exact simulates_lose h hk hc hstep
  | deliver =>
    obtain ⟨serial, events, hevents, rfl⟩ := step_deliver hstep
    exact ⟨[.deliver], _, run_deliver (h.events.trans hevents), h.name, h.database,
      congrArg (Client.removeSerial · serial) h.client, rfl, h.calls⟩
  | updateDeviceStatus serial status =>
    obtain ⟨database, hdb, rfl⟩ := Option.map_eq_some_iff.mp hstep
    refine ⟨[.updateDeviceStatus serial status], { t with database := database }, ?_, h.name, rfl,
      h.client, h.events, h.calls⟩
    rw [Machine.run_singleton]
    exact Option.map_eq_some_iff.mpr ⟨database, h.database ▸ hdb, rfl⟩

/-- **A client over HTTP is a client of `UsbipIce.Tenant`**: every run leads to the
database, the maps and the events of some run there, in which the calls of the same
places are those that its calls stand for. -/
theorem simulates_tenant {name : String} {database : Database} {is : List RemoteInput} {s : Remote}
    (h : machine.run (start name database) is = some s) :
    ∃ js t, Tenant.machine.run (Tenant.start name database) js = some t ∧
      t.database = s.database ∧ t.client = s.client ∧ t.events = s.events ∧
      List.Forall₂ (HttpCall.Stands s.name) s.calls t.calls := by
  obtain ⟨js, t, hjs, ht⟩ := simulates.run (stands_start name database) h
  exact ⟨js, t, hjs, ht.database, ht.client, ht.events, ht.calls⟩

/-- A device is reserved by a call that gives up before its request arrives; it is
reserved by another call, of `true` devices, and ended. The first call has asked for
2.5 devices. -/
def reservesAndEnds : List RemoteInput :=
  [.reserve (.number (.float "2.5")) (.str "usbip") (.object []),
    .reserve (.bool true) (.str "usbip") (.object []), .timeOut 0, .control 0 ⟨0, [], true⟩,
    .control 1 ⟨0, [⟨"A", "10.0.0.1", 8081⟩], true⟩, .run 0, .run 1, .run 1, .run 1,
    .endSome ["A"], .control 2 ⟨0, [], true⟩, .run 2, .run 2, .run 2, .run 2, .deliver]

theorem reservesAndEnds_run :
    (machine.run (start "c" oneAvailable) reservesAndEnds).isSome = true := by
  decide +kernel

theorem reservesAndEnds_simulates :
    ∃ s, machine.run (start "c" oneAvailable) reservesAndEnds = some s ∧
      ∃ js t, Tenant.machine.run (Tenant.start "c" oneAvailable) js = some t ∧
        t.database = s.database ∧ t.client = s.client ∧ t.events = s.events ∧
        List.Forall₂ (HttpCall.Stands s.name) s.calls t.calls := by
  obtain ⟨s, hs⟩ := Option.isSome_iff_exists.mp reservesAndEnds_run
  exact ⟨s, hs, simulates_tenant hs⟩

/-- **No call raises**, and what a call has returned is `False` or a list of
serials. -/
theorem returned_or_goes_on {name : String} {database : Database} {is : List RemoteInput}
    {s : Remote} (h : machine.run (start name database) is = some s) {c : HttpCall}
    (hc : c ∈ s.calls) : c.phase ≠ .raised ∧
      ∀ value, c.phase = .returned value →
        value = .bool false ∨ ∃ serials, value = serialsJson serials := by
  obtain ⟨-, t, -, ht⟩ := simulates.run (stands_start name database) h
  obtain ⟨k, hk⟩ := List.mem_iff_getElem?.mp hc
  obtain ⟨c', -, hstands⟩ := exists_getElem?_of_forall₂ ht.calls hk
  cases hstands with
  | reserved | ended =>
    exact ⟨CallPhase.noConfusion, fun value heq => Or.inr ⟨_, (CallPhase.returned.inj heq).symm⟩⟩
  | failed =>
    exact ⟨CallPhase.noConfusion, fun value heq => Or.inl (CallPhase.returned.inj heq).symm⟩
  | _ => exact ⟨CallPhase.noConfusion, fun value heq => by cases heq⟩

end Remote

end UsbipIce
