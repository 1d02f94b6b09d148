import UsbipIce.Lib.Machine
import UsbipIce.Client.Connections

/-!
# What the client has reserved, and what it tracks

A client learns of its reservations over two channels. The answer to `reserve`
makes it track serials; the answer to `end`, and the 'reservation end' events of
its session, make it untrack them. The answers and the events overtake each
other, and an event may wait in the session for a socket.

Neither an event nor an answer says which reservation it is about. An event of an
earlier reservation that comes after the device was reserved again untracks it
(`UsbipIce.Tenant.late_untracks`).

Where a serial is removed only while nothing new has been tracked under it, what
is reserved is tracked (`UsbipIce.Tenant.tracked_of_timely`).

Calls of the client may overlap. The database functions are transactions, and the
other steps are those of the loops of `BaseAPI` and `Control`. Events are handled
in the order in which they were sent; while the socket is down, none is.
-/

namespace UsbipIce

open Lib Database

/-! ### The calls -/

/-- A call of `reserve`, `end` or `endAll`. -/
inductive ApiCall where
  /-- The request of `reserve` is under way. -/
  | reserving (amount : ℤ)
  /-- Control has reserved, and its answer is under way. -/
  | answering (rows : List ReservedRow)
  /-- In the loop of `BaseAPI.reserve`. -/
  | adding (rows : List ReservedRow) (out : List String)
  | reserved (out : List String)
  /-- The request of `end` is under way, or that of `endAll`. -/
  | ending (serials : Option (List String))
  /-- In the loop of `Control.end`. -/
  | notifying (rows : List EndedRow) (data : List String)
  /-- The answer of control is under way. -/
  | answeringEnd (data : List String)
  /-- In the loop of `BaseAPI.end`. -/
  | removing (serials data : List String)
  | ended (data : List String)
  /-- Has returned `False`. -/
  | failed
  deriving DecidableEq

namespace ApiCall

/-- The serials that the call is still going to track. -/
def toAdd : ApiCall → List String
  | .answering rows | .adding rows _ => rows.map ReservedRow.serial
  | .reserving _ | .reserved _ | .ending _ | .notifying .. | .answeringEnd _ | .removing ..
  | .ended _ | .failed => []

def Returned : ApiCall → Prop
  | .reserved _ | .ended _ | .failed => True
  | .reserving _ | .answering _ | .adding .. | .ending _ | .notifying .. | .answeringEnd _
  | .removing .. => False

theorem Returned.toAdd {c : ApiCall} (h : c.Returned) : c.toAdd = [] := by
  cases c with
  | reserved | ended | failed => rfl
  | _ => exact h.elim

end ApiCall

/-- A client, with the database and with what is under way between it and
control. -/
structure Tenant where
  name : String
  database : Database
  client : Client
  calls : List ApiCall
  /-- The serials of the 'reservation end' events sent and not handled yet. -/
  events : List String
  /-- The serials for which an end has been requested since they were reserved,
  and the call that reserved a serial last. Nothing in the source reads these
  two. -/
  asked : List String
  creator : String → Option ℕ

/-- What a client and control are driven by. -/
inductive TenantInput where
  | reserve (amount : ℤ)
  | endSome (serials : List String)
  | endAll
  /-- Control goes through the database function of call `k`; `res` is what its
  `LIMIT` picks. -/
  | control (k : ℕ) (now : ℤ) (res : List ReservedRow)
  /-- Call `k` goes on, at the client or at control. -/
  | run (k : ℕ)
  /-- The request or the answer of call `k` fails. -/
  | lose (k : ℕ)
  /-- The next event is handled. -/
  | deliver
  /-- A worker writes the status of a device. -/
  | updateDeviceStatus (serial : String) (status : DeviceState)

namespace Tenant

/-- A client with nothing reserved. -/
def start (name : String) (database : Database) : Tenant where
  name := name
  database := database
  client := .start
  calls := []
  events := []
  asked := []
  creator := fun _ => none

/-- The serials that the database holds a reservation of for a client. -/
def reservationsOf (database : Database) (name : String) : List String :=
  (database.reservations.rows.filter fun r => r.clientName = name).map ReservationRow.device

/-- Those of the client. -/
def reservations (s : Tenant) : List String := reservationsOf s.database s.name

/-- `BaseAPI.getSerials`. -/
def getSerials (s : Tenant) : List String := s.client.connectionInfo.keys

/-- Control goes through the database function of a call. -/
def control (s : Tenant) (k : ℕ) (now : ℤ) (res : List ReservedRow) : ApiCall → Option Tenant
  | .reserving amount =>
    if 0 ≤ amount ∧ ¬IsLimit amount.toNat s.database.available res then none
    else
      match s.database.makeReservations amount s.name now res with
      | none => some { s with calls := s.calls.set k .failed }
      | some (database, rows) =>
        some { s with
          database := database
          calls := s.calls.set k (.answering rows)
          asked := s.asked.filter (· ∉ rows.map ReservedRow.serial)
          creator := fun serial =>
            if serial ∈ rows.map ReservedRow.serial then some k else s.creator serial }
  | .ending (some serials) =>
    let ended := s.database.endReservations s.name serials
    some { s with
      database := ended.1
      calls := s.calls.set k (.notifying ended.2 (ended.2.map EndedRow.serial)) }
  | .ending none =>
    let ended := s.database.endAllReservations s.name
    some { s with
      database := ended.1
      calls := s.calls.set k (.notifying ended.2 (ended.2.map EndedRow.serial)) }
  | .answering _ | .adding .. | .reserved _ | .notifying .. | .answeringEnd _ | .removing ..
  | .ended _ | .failed => none

/-- A call goes on. -/
def stepCall (s : Tenant) (k : ℕ) : ApiCall → Option Tenant
  | .answering rows => some { s with calls := s.calls.set k (.adding rows []) }
  | .adding (row :: rows) out =>
    some { s with
      client := s.client.addRow row
      calls := s.calls.set k (.adding rows (out ++ [row.serial])) }
  | .adding [] out => some { s with calls := s.calls.set k (.reserved out) }
  | .notifying (row :: rows) data =>
    some { s with
      calls := s.calls.set k (.notifying rows data)
      events := s.events ++ [row.serial] }
  | .notifying [] data => some { s with calls := s.calls.set k (.answeringEnd data) }
  | .answeringEnd data => some { s with calls := s.calls.set k (.removing data data) }
  | .removing (serial :: serials) data =>
    some { s with
      client := s.client.removeSerial serial
      calls := s.calls.set k (.removing serials data) }
  | .removing [] data => some { s with calls := s.calls.set k (.ended data) }
  | .reserving _ | .reserved _ | .ending _ | .ended _ | .failed => none

/-- The request or the answer of a call fails. -/
def lose (s : Tenant) (k : ℕ) : ApiCall → Option Tenant
  | .reserving _ | .answering _ | .ending _ | .answeringEnd _ =>
    some { s with calls := s.calls.set k .failed }
  | .adding .. | .reserved _ | .notifying .. | .removing .. | .ended _ | .failed => none

/-- One step. -/
def step (s : Tenant) : TenantInput → Option Tenant
  | .reserve amount => some { s with calls := s.calls ++ [.reserving amount] }
  | .endSome serials =>
    some { s with
      calls := s.calls ++ [.ending (some serials)]
      asked := s.asked ++ serials }
  | .endAll =>
    some { s with
      calls := s.calls ++ [.ending none]
      asked := s.asked ++ s.reservations }
  | .control k now res => s.calls[k]?.bind (s.control k now res)
  | .run k => s.calls[k]?.bind (s.stepCall k)
  | .lose k => s.calls[k]?.bind (s.lose k)
  | .deliver =>
    match s.events with
    | [] => none
    | serial :: events =>
      some { s with
        client := s.client.removeSerial serial
        events := events }
  | .updateDeviceStatus serial status =>
    (s.database.updateDeviceStatus serial status).map fun database =>
      { s with database := database }

/-- A client and control as a machine. -/
def machine : Machine Tenant TenantInput := ⟨step⟩

/-! ### What is held -/

/-- The database holds a reservation of the serial that a call of the client has
made, and no end has been requested for it since. -/
def Holds (s : Tenant) (serial : String) : Prop :=
  serial ∈ s.reservations ∧ (s.creator serial).isSome ∧ serial ∉ s.asked

/-- The serials that the call which reserved a serial is still going to track. -/
def left (s : Tenant) (serial : String) : List String :=
  (((s.creator serial).bind fun k => s.calls[k]?).map ApiCall.toAdd).getD []

/-- **The invariant**, of timely runs: what is held is tracked, or about to
be. -/
def Covered (s : Tenant) : Prop :=
  ∀ serial, s.Holds serial → serial ∈ s.left serial ∨ serial ∈ s.getSerials

/-- The serial that a step removes. -/
def removed (s : Tenant) : TenantInput → Option String
  | .deliver => s.events.head?
  | .run k =>
    match s.calls[k]? with
    | some (.removing (serial :: _) _) => some serial
    | _ => none
  | .reserve _ | .endSome _ | .endAll | .control .. | .lose _ | .updateDeviceStatus .. => none

/-- The serials whose reservation the client does not learn of. -/
def lost (s : Tenant) : TenantInput → List String
  | .lose k =>
    match s.calls[k]? with
    | some (.answering rows) =>
      (rows.map ReservedRow.serial).filter fun serial => s.creator serial = some k
    | _ => []
  | .reserve _ | .endSome _ | .endAll | .control .. | .run _ | .deliver
  | .updateDeviceStatus .. => []

/-- A serial is removed only where it is not held, or is going to be tracked; and
no answer is lost that is about one that is held. -/
def Timely (s : Tenant) (i : TenantInput) : Prop :=
  (∀ serial ∈ s.removed i, s.Holds serial → serial ∈ s.left serial) ∧
    ∀ serial ∈ s.lost i, ¬s.Holds serial

theorem covered_start (name : String) (database : Database) : (start name database).Covered :=
  fun _ hholds => absurd hholds.2.1 nofun

/-! ### The database functions -/

theorem mem_reservationsOf {database : Database} {name serial : String} :
    serial ∈ reservationsOf database name ↔
      ∃ r ∈ database.reservations, r.clientName = name ∧ r.device = serial := by
  simp only [reservationsOf, List.mem_map, List.mem_filter, decide_eq_true_eq, and_assoc,
    Table.mem_def]

/-- What a reserving transaction leaves: its own serials, and those before. -/
theorem mem_reservationsOf_made {database database' : Database} {amount now : ℤ} {name : String}
    {res rows : List ReservedRow}
    (h : database.makeReservations amount name now res = some (database', rows)) {serial : String}
    (hmem : serial ∈ reservationsOf database' name) :
    serial ∈ rows.map ReservedRow.serial ∨ serial ∈ reservationsOf database name := by
  obtain ⟨r, hr, hclient, rfl⟩ := mem_reservationsOf.mp hmem
  rcases (mem_reservations_makeReservations h).mp hr with hr | hr
  · exact Or.inr (mem_reservationsOf.mpr ⟨r, hr, hclient, rfl⟩)
  · obtain ⟨row, hrow, rfl⟩ := List.mem_map.mp hr
    exact Or.inl (List.mem_map_of_mem hrow)

/-- A transaction that ends reservations makes none. -/
theorem mem_reservationsOf_endStaged {database : Database} {name serial : String}
    {staged : List String}
    (hmem : serial ∈ reservationsOf (database.endStaged staged).1 name) :
    serial ∈ reservationsOf database name := by
  obtain ⟨r, hr, hclient, rfl⟩ := mem_reservationsOf.mp hmem
  exact mem_reservationsOf.mpr ⟨r, (Table.mem_delete.mp hr).1, hclient, rfl⟩

/-! ### The calls -/

/-- What call `k` is going to track, where it has reserved the serial. -/
theorem left_of_creator {s : Tenant} {k : ℕ} {c : ApiCall} (hc : s.calls[k]? = some c)
    {serial : String} (hk : s.creator serial = some k) : s.left serial = c.toAdd := by
  rw [left, hk, Option.bind_some, hc]
  rfl

/-- What the creating call of a serial is going to track, after call `k` has gone
on. -/
theorem left_set {s t : Tenant} {k : ℕ} {c c' : ApiCall} (hc : s.calls[k]? = some c)
    (hcalls : t.calls = s.calls.set k c') (hcreator : t.creator = s.creator) (serial : String) :
    t.left serial = if s.creator serial = some k then c'.toAdd else s.left serial := by
  have hlt : k < s.calls.length := (List.getElem?_eq_some_iff.mp hc).1
  split
  · rename_i hk
    refine left_of_creator ?_ (hcreator ▸ hk)
    rw [hcalls, List.getElem?_set_self hlt]
  · rename_i hk
    rw [left, left, hcalls, hcreator]
    cases hcall : s.creator serial with
    | none => rfl
    | some j =>
      have hne : k ≠ j := fun heq => hk (heq ▸ hcall)
      rw [Option.bind_some, Option.bind_some, List.getElem?_set_ne hne]

/-- Where the call goes on with what it is going to track. -/
theorem left_set_eq {s t : Tenant} {k : ℕ} {c c' : ApiCall} (hc : s.calls[k]? = some c)
    (hcalls : t.calls = s.calls.set k c') (hcreator : t.creator = s.creator)
    (htoAdd : c'.toAdd = c.toAdd) (serial : String) : t.left serial = s.left serial := by
  rw [left_set hc hcalls hcreator, htoAdd]
  split
  · exact (left_of_creator hc ‹_›).symm
  · rfl

/-- A new call tracks nothing yet. -/
theorem left_concat {s t : Tenant} {c : ApiCall} (hc : c.toAdd = [])
    (hcalls : t.calls = s.calls ++ [c]) (hcreator : t.creator = s.creator) (serial : String) :
    t.left serial = s.left serial := by
  rw [left, left, hcalls, hcreator]
  cases s.creator serial with
  | none => rfl
  | some k =>
    rw [Option.bind_some, Option.bind_some, List.getElem?_append]
    split
    · rfl
    · rename_i hlt
      rw [List.getElem?_eq_none (Nat.le_of_not_lt hlt)]
      cases hone : ([c] : List ApiCall)[k - s.calls.length]? with
      | none => rfl
      | some c' =>
        rw [List.mem_singleton.mp (List.mem_of_getElem? hone)]
        exact hc

/-! ### Steps -/

/-- Where no more is held, and what was going to be tracked still is. -/
theorem Covered.mono {s t : Tenant} (hs : s.Covered)
    (hholds : ∀ serial, t.Holds serial → s.Holds serial)
    (hleft : ∀ serial, t.left serial = s.left serial)
    (htracked : ∀ serial, t.Holds serial → serial ∈ s.getSerials →
      serial ∈ t.left serial ∨ serial ∈ t.getSerials) : t.Covered := by
  intro serial hserial
  rcases hs serial (hholds serial hserial) with h | h
  · exact Or.inl (hleft serial ▸ h)
  · exact htracked serial hserial h

/-- Where the client's map is left alone. -/
theorem Covered.frame {s t : Tenant} (hs : s.Covered)
    (hholds : ∀ serial, t.Holds serial → s.Holds serial)
    (hleft : ∀ serial, t.left serial = s.left serial) (hclient : t.client = s.client) :
    t.Covered :=
  hs.mono hholds hleft fun serial _ h => Or.inr (by rw [getSerials, hclient]; exact h)

/-- **A reserving transaction**: what it makes is going to be tracked. -/
theorem covered_made {s : Tenant} (hs : s.Covered) {k : ℕ} {amount now : ℤ}
    (hc : s.calls[k]? = some (.reserving amount)) {res rows : List ReservedRow}
    {database : Database}
    (h : s.database.makeReservations amount s.name now res = some (database, rows)) :
    Covered { s with
      database := database
      calls := s.calls.set k (.answering rows)
      asked := s.asked.filter (· ∉ rows.map ReservedRow.serial)
      creator := fun serial =>
        if serial ∈ rows.map ReservedRow.serial then some k else s.creator serial } := by
  rintro serial ⟨hmem, hcreator, hasked⟩
  have hlt : k < s.calls.length := (List.getElem?_eq_some_iff.mp hc).1
  by_cases hserial : serial ∈ rows.map ReservedRow.serial
  · refine Or.inl ?_
    rw [left_of_creator (List.getElem?_set_self hlt) (if_pos hserial)]
    exact hserial
  · have hold : s.Holds serial := by
      refine ⟨(mem_reservationsOf_made h hmem).resolve_left hserial, ?_, fun hmem' => hasked ?_⟩
      · simp only [if_neg hserial] at hcreator
        exact hcreator
      · exact List.mem_filter.mpr ⟨hmem', decide_eq_true hserial⟩
    rcases hs serial hold with hleft | htracked
    · -- the call has not reserved anything before
      have hk : s.creator serial ≠ some k := fun hk => by
        rw [left_of_creator hc hk] at hleft
        cases hleft
      refine Or.inl ?_
      have hset :=
        left_set (t := { s with calls := s.calls.set k (.answering rows) }) hc rfl rfl serial
      rw [if_neg hk] at hset
      rw [← hset] at hleft
      simp only [left, if_neg hserial] at hleft ⊢
      exact hleft
    · exact Or.inr htracked

theorem covered_control {s t : Tenant} (hs : s.Covered) {k : ℕ} {now : ℤ} {res : List ReservedRow}
    {c : ApiCall} (hc : s.calls[k]? = some c) (h : s.control k now res c = some t) : t.Covered := by
  cases c with
  | reserving amount =>
    rw [control] at h
    split at h
    · cases h
    · split at h
      · obtain rfl := Option.some.inj h
        exact hs.frame (fun _ => id) (left_set_eq hc rfl rfl rfl) rfl
      · rename_i database rows hmade
        obtain rfl := Option.some.inj h
        exact covered_made hs hc hmade
  | ending serials =>
    cases serials with
    | none =>
      obtain rfl := Option.some.inj h
      exact hs.frame (fun _ hholds => ⟨mem_reservationsOf_endStaged hholds.1, hholds.2⟩)
        (left_set_eq hc rfl rfl rfl) rfl
    | some serials =>
      obtain rfl := Option.some.inj h
      exact hs.frame (fun _ hholds => ⟨mem_reservationsOf_endStaged hholds.1, hholds.2⟩)
        (left_set_eq hc rfl rfl rfl) rfl
  | _ => cases h

/-- Adding a row tracks its serial, and untracks none. -/
@[simp] theorem mem_keys_addRow {c : Client} {row : ReservedRow} {serial : String} :
    serial ∈ (c.addRow row).connectionInfo.keys ↔
      serial = row.serial ∨ serial ∈ c.connectionInfo.keys := by
  rw [Table.mem_keys, Table.mem_keys]
  constructor
  · rintro ⟨p, hp, rfl⟩
    rcases Client.mem_addRow.mp hp with rfl | ⟨hp, -⟩
    · exact Or.inl rfl
    · exact Or.inr ⟨p, hp, rfl⟩
  · rintro (rfl | ⟨p, hp, rfl⟩)
    · exact ⟨_, Client.mem_addRow.mpr (Or.inl rfl), rfl⟩
    · by_cases hrow : p.1 = row.serial
      · exact ⟨_, Client.mem_addRow.mpr (Or.inl rfl), hrow.symm⟩
      · exact ⟨p, Client.mem_addRow.mpr (Or.inr ⟨hp, hrow⟩), rfl⟩

/-- **A removal**: what is removed is not held, or is going to be tracked. -/
theorem covered_remove {s t : Tenant} (hs : s.Covered) {serial : String}
    (htime : s.Holds serial → serial ∈ s.left serial)
    (hholds : ∀ x, t.Holds x → s.Holds x) (hleft : ∀ x, t.left x = s.left x)
    (hclient : t.client = s.client.removeSerial serial) : t.Covered := by
  refine hs.mono hholds hleft fun x hx htracked => ?_
  by_cases heq : x = serial
  · subst heq
    exact Or.inl (hleft x ▸ htime (hholds x hx))
  · refine Or.inr ?_
    rw [getSerials, hclient]
    exact Client.keys_removeSerial.mpr ⟨htracked, heq⟩

theorem covered_stepCall {s t : Tenant} (hs : s.Covered) {k : ℕ} {c : ApiCall}
    (hc : s.calls[k]? = some c) (htime : s.Timely (.run k)) (h : s.stepCall k c = some t) :
    t.Covered := by
  rw [stepCall.eq_def] at h
  split at h
  · obtain rfl := Option.some.inj h
    exact hs.frame (fun _ => id) (left_set_eq hc rfl rfl rfl) rfl
  · -- a row is added, and its call has it no more in front of it
    rename_i row rows out
    obtain rfl := Option.some.inj h
    intro serial hholds
    have htracked : serial ∈ s.getSerials → serial ∈ (s.client.addRow row).connectionInfo.keys :=
      fun h => mem_keys_addRow.mpr (Or.inr h)
    have hset := left_set (t := { s with
      client := s.client.addRow row
      calls := s.calls.set k (.adding rows (out ++ [row.serial])) }) hc rfl rfl serial
    rcases hs serial hholds with hleft | hmem
    · rw [hset]
      by_cases hk : s.creator serial = some k
      · rw [left_of_creator hc hk] at hleft
        rw [if_pos hk]
        rcases List.mem_cons.mp hleft with rfl | hrest
        · exact Or.inr (mem_keys_addRow.mpr (Or.inl rfl))
        · exact Or.inl hrest
      · rw [if_neg hk]
        exact Or.inl hleft
    · exact Or.inr (htracked hmem)
  · obtain rfl := Option.some.inj h
    exact hs.frame (fun _ => id) (left_set_eq hc rfl rfl rfl) rfl
  · obtain rfl := Option.some.inj h
    exact hs.frame (fun _ => id) (left_set_eq hc rfl rfl rfl) rfl
  · obtain rfl := Option.some.inj h
    exact hs.frame (fun _ => id) (left_set_eq hc rfl rfl rfl) rfl
  · obtain rfl := Option.some.inj h
    exact hs.frame (fun _ => id) (left_set_eq hc rfl rfl rfl) rfl
  · rename_i serial serials data
    obtain rfl := Option.some.inj h
    refine covered_remove hs (htime.1 serial ?_) (fun _ => id) (left_set_eq hc rfl rfl rfl) rfl
    rw [removed, hc]
    rfl
  · obtain rfl := Option.some.inj h
    exact hs.frame (fun _ => id) (left_set_eq hc rfl rfl rfl) rfl
  · cases h
  · cases h
  · cases h
  · cases h
  · cases h

theorem covered_lose {s t : Tenant} (hs : s.Covered) {k : ℕ} {c : ApiCall}
    (hc : s.calls[k]? = some c) (htime : s.Timely (.lose k)) (h : s.lose k c = some t) :
    t.Covered := by
  rw [lose.eq_def] at h
  split at h
  · obtain rfl := Option.some.inj h
    exact hs.frame (fun _ => id) (left_set_eq hc rfl rfl rfl) rfl
  · rename_i rows
    obtain rfl := Option.some.inj h
    intro serial hholds
    have hset := left_set (t := { s with calls := s.calls.set k .failed }) hc rfl rfl serial
    refine (hs serial hholds).imp_left fun hleft => ?_
    rw [hset]
    by_cases hk : s.creator serial = some k
    · rw [left_of_creator hc hk] at hleft
      refine absurd hholds (htime.2 serial ?_)
      rw [lost, hc]
      exact List.mem_filter.mpr ⟨hleft, decide_eq_true hk⟩
    · rw [if_neg hk]
      exact hleft
  · obtain rfl := Option.some.inj h
    exact hs.frame (fun _ => id) (left_set_eq hc rfl rfl rfl) rfl
  · obtain rfl := Option.some.inj h
    exact hs.frame (fun _ => id) (left_set_eq hc rfl rfl rfl) rfl
  all_goals cases h

/-- **Every timely step keeps the invariant.** -/
theorem covered_step {s t : Tenant} {i : TenantInput} (hs : s.Covered) (htime : s.Timely i)
    (h : s.step i = some t) : t.Covered := by
  cases i with
  | reserve amount =>
    obtain rfl := Option.some.inj h
    exact hs.frame (fun _ => id) (left_concat rfl rfl rfl) rfl
  | endSome serials =>
    obtain rfl := Option.some.inj h
    exact hs.frame (fun _ hholds => ⟨hholds.1, hholds.2.1,
      fun hmem => hholds.2.2 (List.mem_append_left _ hmem)⟩)
      (left_concat rfl rfl rfl) rfl
  | endAll =>
    obtain rfl := Option.some.inj h
    exact hs.frame (fun _ hholds => ⟨hholds.1, hholds.2.1,
      fun hmem => hholds.2.2 (List.mem_append_left _ hmem)⟩)
      (left_concat rfl rfl rfl) rfl
  | control k now res =>
    obtain ⟨c, hc, h⟩ := Option.bind_eq_some_iff.mp h
    exact covered_control hs hc h
  | run k =>
    obtain ⟨c, hc, h⟩ := Option.bind_eq_some_iff.mp h
    exact covered_stepCall hs hc htime h
  | lose k =>
    obtain ⟨c, hc, h⟩ := Option.bind_eq_some_iff.mp h
    exact covered_lose hs hc htime h
  | deliver =>
    simp only [step] at h
    split at h
    · cases h
    · rename_i serial events hevents
      obtain rfl := Option.some.inj h
      refine covered_remove hs (htime.1 serial ?_) (fun _ => id) (fun _ => rfl) rfl
      rw [removed, hevents]
      rfl
  | updateDeviceStatus serial status =>
    obtain ⟨database, hdb, rfl⟩ := Option.map_eq_some_iff.mp h
    have hsame := (updateDeviceStatus_spec hdb).2.1
    refine hs.frame (fun x hholds => ⟨?_, hholds.2⟩) (fun _ => rfl) rfl
    obtain ⟨r, hr, hclient, rfl⟩ := mem_reservationsOf.mp hholds.1
    exact mem_reservationsOf.mpr ⟨r, hsame ▸ hr, hclient, rfl⟩

/-- **What is reserved is tracked, where removals are timely.** In every state of
every such run, if the database holds a reservation of a serial for the client,
the call of `reserve` that made it has returned, and no end has been requested
for the serial since, then the client tracks it. -/
theorem tracked_of_timely {name : String} {database : Database} {is : List TenantInput}
    (htimely : machine.Meets Timely (start name database) is) {s : Tenant}
    (h : machine.run (start name database) is = some s) {serial : String} {k : ℕ} {c : ApiCall}
    (hmem : serial ∈ s.reservations) (hk : s.creator serial = some k) (hc : s.calls[k]? = some c)
    (hreturned : c.Returned) (hasked : serial ∉ s.asked) : serial ∈ s.getSerials := by
  have hs : s.Covered := Machine.invariant_of_meets (I := Covered) (fun _ _ _ => covered_step)
    (covered_start name database) htimely h
  refine (hs serial ⟨hmem, hk ▸ rfl, hasked⟩).resolve_left fun hleft => ?_
  rw [left_of_creator hc hk, hreturned.toAdd] at hleft
  cases hleft

/-! ### A reservation, and one that is untracked -/

instance (s : Tenant) (serial : String) : Decidable (s.Holds serial) :=
  inferInstanceAs (Decidable (_ ∧ _ ∧ _))

instance (s : Tenant) (i : TenantInput) : Decidable (s.Timely i) :=
  inferInstanceAs (Decidable (_ ∧ _))

/-- The device is reserved by call `k`. -/
def reserves (k : ℕ) : List TenantInput :=
  [.reserve 1, .control k 0 [⟨"A", "10.0.0.1", 8081⟩], .run k, .run k, .run k]

/-- The reservation is ended; the event about it stays in the session. The device
is flashed and reserved again, and only then does the event come. -/
def reservesAgain : List TenantInput :=
  reserves 0 ++ [.endSome ["A"], .control 1 0 [], .run 1, .run 1, .run 1, .run 1, .run 1,
    .updateDeviceStatus "A" .available] ++ reserves 2 ++ [.deliver]

/-- A client, as far as the property looks at one serial. -/
def outlook (serial : String) (s : Tenant) :
    Bool × Option ℕ × Option ApiCall × List String × List String :=
  (decide (serial ∈ s.reservations), s.creator serial,
    (s.creator serial).bind fun k => s.calls[k]?, s.asked, s.getSerials)

theorem outlook_eq {s : Tenant} {serial : String} {k : ℕ} {c : ApiCall}
    {asked tracked : List String}
    (h : s.outlook serial = (true, some k, some c, asked, tracked)) :
    serial ∈ s.reservations ∧ s.creator serial = some k ∧ s.calls[k]? = some c ∧ s.asked = asked ∧
      s.getSerials = tracked := by
  obtain ⟨hmem, hrest⟩ := Prod.mk.inj h
  obtain ⟨hk, hrest⟩ := Prod.mk.inj hrest
  obtain ⟨hc, hrest⟩ := Prod.mk.inj hrest
  obtain ⟨hasked, htracked⟩ := Prod.mk.inj hrest
  rw [hk] at hc
  exact ⟨of_decide_eq_true hmem, hk, hc, hasked, htracked⟩

theorem reserves_run : (machine.run (start "c" oneAvailable) (reserves 0)).map (outlook "A") =
    some (true, some 0, some (.reserved ["A"]), [], ["A"]) := by
  decide

theorem reservesAgain_run :
    (machine.run (start "c" oneAvailable) reservesAgain).map (outlook "A") =
      some (true, some 2, some (.reserved ["A"]), [], []) := by
  decide

theorem reserves_tracks : ∃ s, machine.run (start "c" oneAvailable) (reserves 0) = some s ∧
    s.Holds "A" ∧ "A" ∈ s.getSerials := by
  obtain ⟨s, hs, houtlook⟩ := Option.map_eq_some_iff.mp reserves_run
  obtain ⟨hmem, hk, hc, hasked, -⟩ := outlook_eq houtlook
  have hnot : "A" ∉ s.asked := hasked ▸ List.not_mem_nil
  exact ⟨s, hs, ⟨hmem, hk ▸ rfl, hnot⟩,
    tracked_of_timely (by decide) hs hmem hk hc trivial hnot⟩

/-- **A late event untracks a new reservation**, whose call has returned. -/
theorem late_untracks : ∃ s k c, machine.run (start "c" oneAvailable) reservesAgain = some s ∧
    "A" ∈ s.reservations ∧ s.creator "A" = some k ∧ s.calls[k]? = some c ∧ c.Returned ∧
      "A" ∉ s.asked ∧ "A" ∉ s.getSerials := by
  obtain ⟨s, hs, houtlook⟩ := Option.map_eq_some_iff.mp reservesAgain_run
  obtain ⟨hmem, hk, hc, hasked, htracked⟩ := outlook_eq houtlook
  exact ⟨s, 2, _, hs, hmem, hk, hc, trivial, hasked ▸ List.not_mem_nil,
    htracked ▸ List.not_mem_nil⟩

end Tenant

end UsbipIce
