import UsbipIce.Lib.Machine
import UsbipIce.Lib.Table
import UsbipIce.Control.Database

/-!
# A client's serials and its worker sockets

A client keeps two maps: `connection_info` of `BaseAPI`, from the serials it
tracks to where their worker is, and `worker_sockets` of `EventServer`, from
worker urls to sockets. They are kept in step by `BaseClient.removeSerial`,
which closes a worker's socket once `usingConnection` says that no serial is on
that worker any more.

`usingConnection` asks for equality of `ConnectionInfo` objects, and
`ConnectionInfo.__eq__` compares the port of one with the *ip* of the other.
On what the control server sends, a string and an integer, that is never true
of two objects (`UsbipIce.ConnectionInfo.eq_ofRow`), so every removal closes
the socket of its worker (`UsbipIce.Client.mem_sockets_removeAll`). The two
maps are in step after every operation exactly when no operation untracks a
serial on a url that another serial keeps
(`UsbipIce.Client.along_synced_iff`).
-/

namespace UsbipIce

open Lib Database

/-! ### Connection infos -/

/-- A decoded JSON string or integer. -/
inductive Scalar where
  | str (s : String)
  | int (n : ℤ)
  deriving DecidableEq, Repr

/-- The text an f-string puts for a value. -/
def Scalar.text : Scalar → String
  | .str s => s
  | .int n => toString n

/-- A `ConnectionInfo` object; `oid` is its identity as an object. -/
structure ConnectionInfo where
  oid : ℕ
  ip : Scalar
  serverPort : Scalar
  deriving DecidableEq

namespace ConnectionInfo

/-- `ConnectionInfo.__eq__`: the port of one is compared with the ip of the
other. -/
def eq (self value : ConnectionInfo) : Bool :=
  decide (self.ip = value.ip) && decide (self.serverPort = value.ip)

/-- `ConnectionInfo.url`. -/
def url (self : ConnectionInfo) : String :=
  "http://" ++ self.ip.text ++ ":" ++ self.serverPort.text

/-- The object made for a row of a reservation. -/
def ofRow (oid : ℕ) (row : ReservedRow) : ConnectionInfo :=
  ⟨oid, .str row.ip, .int row.serverport⟩

/-- **No object made for a row equals another by `__eq__`**, itself included:
its port is an integer and its ip a string. -/
@[simp] theorem eq_ofRow (i j : ℕ) (r r' : ReservedRow) : (ofRow i r).eq (ofRow j r') = false := by
  simp [eq, ofRow]

end ConnectionInfo

/-! ### The client -/

/-- The maps of a client: `connection_info`, and `worker_sockets` with `true`
for a socket and `false` for the `False` of a failed attempt. `nextOid` is the
identity of the next object. -/
structure Client where
  connectionInfo : Table (String × ConnectionInfo) Prod.fst
  workerSockets : Table (String × Bool) Prod.fst
  nextOid : ℕ

namespace Client

/-- A client that has reserved nothing; its control socket is connected. -/
def start : Client := ⟨∅, ∅, 0⟩

/-- `BaseAPI.getConnectionInfo`. -/
def getConnectionInfo (c : Client) (serial : String) : Option ConnectionInfo :=
  (c.connectionInfo.find? serial).map Prod.snd

/-- `BaseAPI.addSerial`. -/
def addSerial (c : Client) (serial : String) (info : ConnectionInfo) : Client :=
  { c with connectionInfo := c.connectionInfo.put (serial, info) }

/-- `BaseAPI.usingConnection`: `info in self.connection_info.values()`, which
is true of the object itself and of objects equal to it. -/
def usingConnection (c : Client) (info : ConnectionInfo) : Bool :=
  c.connectionInfo.rows.any fun p => decide (p.2.oid = info.oid) || p.2.eq info

/-- `EventServer.connectWorker`; `attempt` is the outcome of the connection
attempt, if one is made. -/
def connectWorker (c : Client) (url : String) (attempt : Bool) : Client :=
  if url ∈ c.workerSockets.keys then c
  else { c with workerSockets := c.workerSockets.put (url, attempt) }

/-- `EventServer.disconnectWorker`. -/
def disconnectWorker (c : Client) (url : String) : Client :=
  match c.workerSockets.find? url with
  | none => c
  | some (_, false) => c
  | some (_, true) => { c with workerSockets := c.workerSockets.delete fun p => p.1 = url }

/-- `BaseAPI.removeSerial`. -/
def untrack (c : Client) (serial : String) : Client :=
  { c with connectionInfo := c.connectionInfo.delete fun p => p.1 = serial }

/-- `BaseClient.removeSerial`. -/
def removeSerial (c : Client) (serial : String) : Client :=
  match c.getConnectionInfo serial with
  | none => c.untrack serial
  | some info =>
    if (c.untrack serial).usingConnection info then c.untrack serial
    else (c.untrack serial).disconnectWorker info.url

/-- One iteration of the loop of `BaseAPI.reserve`: a new `ConnectionInfo` for
the row. -/
def addRow (c : Client) (row : ReservedRow) : Client :=
  { c.addSerial row.serial (.ofRow c.nextOid row) with nextOid := c.nextOid + 1 }

/-- The loop of `BaseAPI.reserve` over the rows of the answer. -/
def addRows (c : Client) (rows : List ReservedRow) : Client :=
  rows.foldl addRow c

/-- The loop of `BaseClient.reserve` over the serials: connect to the worker
of each. Every attempt succeeds here. -/
def connectWorkers (c : Client) (serials : List String) : Client :=
  serials.foldl (fun c serial =>
    match c.getConnectionInfo serial with
    | none => c
    | some info => c.connectWorker info.url true) c

/-- `BaseClient.reserve` on the rows control answered. -/
def reserve (c : Client) (rows : List ReservedRow) : Client :=
  (c.addRows rows).connectWorkers (rows.map ReservedRow.serial)

/-- The loop of `BaseAPI.end` and `BaseAPI.endAll` over the serials control
answered. -/
def removeAll (c : Client) (serials : List String) : Client :=
  serials.foldl removeSerial c

/-- A completed operation, with control's answer (`none` where it is `False`),
or a handled event. -/
inductive Op where
  | reserve (answer : Option (List ReservedRow))
  | removeSerial (serial : String)
  | endSome (answer : Option (List String))
  | endAll (answer : Option (List String))
  | handleReservationEnd (serial : String)
  | handleFailure (serial : String)

/-- What an operation does to the maps. -/
def step (c : Client) : Op → Client
  | .reserve (some rows) => c.reserve rows
  | .removeSerial serial => c.removeSerial serial
  | .endSome (some serials) => c.removeAll serials
  | .endAll (some serials) => c.removeAll serials
  | .handleReservationEnd serial => c.removeSerial serial
  | .handleFailure serial => c.removeSerial serial
  | .reserve none | .endSome none | .endAll none => c

/-- The client as a machine. -/
def machine : Machine Client Op := ⟨fun c op => some (c.step op)⟩

/-! ### Being in step -/

/-- A serial is tracked, on a url. -/
def Tracked (c : Client) (serial url : String) : Prop :=
  ∃ p ∈ c.connectionInfo, p.1 = serial ∧ p.2.url = url

/-- **The two maps are in step**: the urls with a socket are the urls of the
tracked serials. -/
def Synced (c : Client) : Prop :=
  ∀ url, url ∈ c.workerSockets.keys ↔ ∃ serial, c.Tracked serial url

/-- What every client keeps: its infos were made for rows, each object for one
entry, and its sockets are live. -/
structure Inv (c : Client) : Prop where
  ofRow : ∀ p ∈ c.connectionInfo, ∃ oid row, p.2 = .ofRow oid row
  oid_lt : ∀ p ∈ c.connectionInfo, p.2.oid < c.nextOid
  oid_inj : ∀ p ∈ c.connectionInfo, ∀ q ∈ c.connectionInfo, p.2.oid = q.2.oid → p = q
  live : ∀ p ∈ c.workerSockets, p.2 = true

theorem inv_start : Inv start where
  ofRow := fun p hp => absurd hp (Table.not_mem_empty p)
  oid_lt := fun p hp => absurd hp (Table.not_mem_empty p)
  oid_inj := fun p hp => absurd hp (Table.not_mem_empty p)
  live := fun p hp => absurd hp (Table.not_mem_empty p)

theorem synced_start : Synced start := by
  intro url
  refine iff_of_false (List.not_mem_nil) ?_
  rintro ⟨serial, p, hp, -⟩
  exact Table.not_mem_empty p hp

@[simp] theorem getConnectionInfo_eq_some {c : Client} {serial : String} {info : ConnectionInfo} :
    c.getConnectionInfo serial = some info ↔ (serial, info) ∈ c.connectionInfo := by
  rw [getConnectionInfo, Option.map_eq_some_iff]
  constructor
  · rintro ⟨p, hp, rfl⟩
    obtain ⟨hmem, rfl⟩ := Table.find?_eq_some.mp hp
    exact hmem
  · intro h
    exact ⟨(serial, info), Table.find?_eq_some.mpr ⟨h, rfl⟩, rfl⟩

/-! ### Removing serials -/

theorem keys_disconnectWorker {c : Client} (hlive : ∀ p ∈ c.workerSockets, p.2 = true)
    (url u : String) :
    u ∈ (c.disconnectWorker url).workerSockets.keys ↔ u ∈ c.workerSockets.keys ∧ u ≠ url := by
  rw [disconnectWorker]
  split
  · rename_i hnone
    have hurl := Table.find?_eq_none.mp hnone
    exact ⟨fun h => ⟨h, fun heq => hurl (heq ▸ h)⟩, fun h => h.1⟩
  · rename_i hsome
    exact absurd (hlive _ (Table.find?_eq_some.mp hsome).1) (by simp)
  · exact Table.mem_keys_delete fun _ => decide_eq_true_iff

@[simp] theorem connectionInfo_disconnectWorker (c : Client) (url : String) :
    (c.disconnectWorker url).connectionInfo = c.connectionInfo ∧
      (c.disconnectWorker url).nextOid = c.nextOid := by
  rw [disconnectWorker]
  split <;> exact ⟨rfl, rfl⟩

@[simp] theorem connectionInfo_removeSerial (c : Client) (serial : String) :
    (c.removeSerial serial).connectionInfo = (c.connectionInfo.delete fun p => p.1 = serial) ∧
      (c.removeSerial serial).nextOid = c.nextOid := by
  rw [removeSerial]
  split
  · exact ⟨rfl, rfl⟩
  · split
    · exact ⟨rfl, rfl⟩
    · exact connectionInfo_disconnectWorker _ _

/-- `removeSerial` untracks its serial. -/
@[simp] theorem keys_removeSerial {c : Client} {serial x : String} :
    x ∈ (c.removeSerial serial).connectionInfo.keys ↔ x ∈ c.connectionInfo.keys ∧ x ≠ serial := by
  simpa using Table.mem_keys_delete fun _ => decide_eq_true_iff

/-- **Once a serial is untracked, its connection is never found in use**: the
object is gone from the map, and no other equals it. -/
theorem usingConnection_eq_false {c : Client} (h : c.Inv) {serial : String}
    {info : ConnectionInfo} (hinfo : (serial, info) ∈ c.connectionInfo) :
    (c.untrack serial).usingConnection info = false := by
  rw [usingConnection, List.any_eq_false]
  intro p hp hused
  obtain ⟨hmem, hne⟩ := Table.mem_delete.mp (Table.mem_def.mpr hp)
  rw [Bool.or_eq_true, decide_eq_true_eq] at hused
  rcases hused with hoid | heq
  · have hp' : p = (serial, info) := h.oid_inj p hmem _ hinfo hoid
    simp [hp'] at hne
  · obtain ⟨i, r, hr⟩ := h.ofRow p hmem
    obtain ⟨j, r', hr'⟩ := h.ofRow _ hinfo
    simp [hr, show info = _ from hr'] at heq

/-- `removeSerial` closes the socket of its serial's worker. -/
theorem workerSockets_removeSerial {c : Client} (h : c.Inv) (serial u : String) :
    u ∈ (c.removeSerial serial).workerSockets.keys ↔
      u ∈ c.workerSockets.keys ∧ ¬c.Tracked serial u := by
  rw [removeSerial]
  cases hinfo : c.getConnectionInfo serial with
  | none =>
    refine ⟨fun hu => ⟨hu, ?_⟩, fun hu => hu.1⟩
    rintro ⟨p, hp, rfl, -⟩
    have hsome := getConnectionInfo_eq_some.mpr hp
    rw [hinfo] at hsome
    cases hsome
  | some info =>
    have hmem := getConnectionInfo_eq_some.mp hinfo
    simp only [usingConnection_eq_false h hmem, Bool.false_eq_true, if_false]
    refine (keys_disconnectWorker (show ∀ p ∈ (c.untrack serial).workerSockets, p.2 = true from
      h.live) info.url u).trans (and_congr_right fun _ => not_congr ⟨?_, ?_⟩)
    · rintro rfl
      exact ⟨_, hmem, rfl, rfl⟩
    · rintro ⟨p, hp, hps, rfl⟩
      rw [Table.eq_of_key_eq hp hmem hps]

theorem live_removeSerial {c : Client} (h : c.Inv) (serial : String) :
    ∀ p ∈ (c.removeSerial serial).workerSockets, p.2 = true := by
  rw [removeSerial]
  cases c.getConnectionInfo serial with
  | none => exact h.live
  | some info =>
    dsimp only
    split
    · exact h.live
    · rw [disconnectWorker]
      split
      · exact h.live
      · exact h.live
      · intro p hp
        exact h.live p (Table.mem_delete.mp hp).1

theorem inv_removeSerial {c : Client} (h : c.Inv) (serial : String) :
    (c.removeSerial serial).Inv := by
  obtain ⟨hinfo, hoid⟩ := connectionInfo_removeSerial c serial
  refine ⟨?_, ?_, ?_, live_removeSerial h serial⟩
  · intro p hp
    rw [hinfo, Table.mem_delete] at hp
    exact h.ofRow p hp.1
  · intro p hp
    rw [hinfo, Table.mem_delete] at hp
    rw [hoid]
    exact h.oid_lt p hp.1
  · intro p hp q hq
    rw [hinfo, Table.mem_delete] at hp hq
    exact h.oid_inj p hp.1 q hq.1

@[simp] theorem tracked_removeSerial {c : Client} {serial s u : String} :
    (c.removeSerial serial).Tracked s u ↔ c.Tracked s u ∧ s ≠ serial := by
  simp only [Tracked, (connectionInfo_removeSerial c serial).1, Table.mem_delete,
    decide_eq_false_iff_not]
  constructor
  · rintro ⟨p, ⟨hp, hne⟩, rfl, hu⟩
    exact ⟨⟨p, hp, rfl, hu⟩, hne⟩
  · rintro ⟨⟨p, hp, rfl, hu⟩, hne⟩
    exact ⟨p, ⟨hp, hne⟩, rfl, hu⟩

theorem inv_removeAll {c : Client} (h : c.Inv) (serials : List String) :
    (c.removeAll serials).Inv := by
  induction serials generalizing c with
  | nil => exact h
  | cons s l ih => exact ih (inv_removeSerial h s)

theorem tracked_removeAll {c : Client} (h : c.Inv) {serials : List String} {s u : String} :
    (c.removeAll serials).Tracked s u ↔ c.Tracked s u ∧ s ∉ serials := by
  induction serials generalizing c with
  | nil => simp [removeAll]
  | cons s' l ih =>
    have hstep : (c.removeAll (s' :: l)) = (c.removeSerial s').removeAll l := rfl
    simp [hstep, ih (inv_removeSerial h s'), and_assoc]

/-- **Untracking closes the socket of every url that had one of the serials**,
whatever else is on it. -/
theorem mem_sockets_removeAll {c : Client} (h : c.Inv) {serials : List String} {u : String} :
    u ∈ (c.removeAll serials).workerSockets.keys ↔
      u ∈ c.workerSockets.keys ∧ ∀ s ∈ serials, ¬c.Tracked s u := by
  induction serials generalizing c with
  | nil => simp [removeAll]
  | cons s l ih =>
    have hstep : (c.removeAll (s :: l)) = (c.removeSerial s).removeAll l := rfl
    rw [hstep, ih (inv_removeSerial h s), workerSockets_removeSerial h, and_assoc]
    refine and_congr_right fun _ => ?_
    constructor
    · rintro ⟨hs, hl⟩ s' hs'
      rcases List.mem_cons.mp hs' with rfl | hs'
      · exact hs
      · intro htr
        by_cases heq : s' = s
        · exact hs (heq ▸ htr)
        · exact hl s' hs' (tracked_removeSerial.mpr ⟨htr, heq⟩)
    · intro hall
      refine ⟨hall s List.mem_cons_self, fun s' hs' htr => ?_⟩
      exact hall s' (List.mem_cons_of_mem _ hs') (tracked_removeSerial.mp htr).1

/-- **When untracking keeps the maps in step**: no serial that stays tracked is
on the url of one that goes. -/
theorem synced_removeAll_iff {c : Client} (h : c.Inv) (hs : c.Synced) {serials : List String} :
    (c.removeAll serials).Synced ↔
      ∀ s u, c.Tracked s u → s ∈ serials → ∀ s', c.Tracked s' u → s' ∈ serials := by
  constructor
  · intro hsync s u hsu hmem s' hs'u
    by_contra hnot
    have hkey := (hsync u).mpr ⟨s', (tracked_removeAll h).mpr ⟨hs'u, hnot⟩⟩
    exact ((mem_sockets_removeAll h).mp hkey).2 s hmem hsu
  · intro hcond u
    rw [mem_sockets_removeAll h]
    constructor
    · rintro ⟨hkey, hall⟩
      obtain ⟨s, hsu⟩ := (hs u).mp hkey
      exact ⟨s, (tracked_removeAll h).mpr ⟨hsu, fun hmem => hall s hmem hsu⟩⟩
    · rintro ⟨s, hsu⟩
      obtain ⟨htr, hnot⟩ := (tracked_removeAll h).mp hsu
      exact ⟨(hs u).mpr ⟨s, htr⟩, fun s' hmem hs'u => hnot (hcond s' u hs'u hmem s htr)⟩

/-! ### Reserving -/

/-- The url of a row's worker. -/
def rowUrl (row : ReservedRow) : String := (ConnectionInfo.ofRow 0 row).url

/-- A row whose serial does not come up again later in the answer: the one
that counts, should the answer list a serial twice. -/
def LastRow (rows : List ReservedRow) (row : ReservedRow) : Prop :=
  ∃ pre post, rows = pre ++ row :: post ∧ row.serial ∉ post.map ReservedRow.serial

theorem not_lastRow_nil (row : ReservedRow) : ¬LastRow [] row := by
  rintro ⟨pre, post, h, -⟩
  cases pre <;> cases h

@[simp] theorem lastRow_cons {r row : ReservedRow} {rows : List ReservedRow} :
    LastRow (r :: rows) row ↔
      LastRow rows row ∨ (row = r ∧ r.serial ∉ rows.map ReservedRow.serial) := by
  constructor
  · rintro ⟨pre, post, h, hnot⟩
    cases pre with
    | nil =>
      obtain ⟨rfl, rfl⟩ := List.cons.inj h
      exact Or.inr ⟨rfl, hnot⟩
    | cons x pre =>
      obtain ⟨rfl, rfl⟩ := List.cons.inj h
      exact Or.inl ⟨pre, post, rfl, hnot⟩
  · rintro (⟨pre, post, rfl, hnot⟩ | ⟨rfl, hnot⟩)
    · exact ⟨r :: pre, post, rfl, hnot⟩
    · exact ⟨[], rows, rfl, hnot⟩

theorem LastRow.mem {rows : List ReservedRow} {row : ReservedRow} (h : LastRow rows row) :
    row ∈ rows := by
  obtain ⟨pre, post, rfl, -⟩ := h
  exact List.mem_append_right _ List.mem_cons_self

@[simp] theorem addRows_cons (c : Client) (row : ReservedRow) (rows : List ReservedRow) :
    c.addRows (row :: rows) = (c.addRow row).addRows rows := rfl

@[simp] theorem mem_addRow {c : Client} {row : ReservedRow} {p : String × ConnectionInfo} :
    p ∈ (c.addRow row).connectionInfo ↔
      p = (row.serial, .ofRow c.nextOid row) ∨ (p ∈ c.connectionInfo ∧ p.1 ≠ row.serial) :=
  Table.mem_put

@[simp] theorem tracked_addRow {c : Client} {row : ReservedRow} {s u : String} :
    (c.addRow row).Tracked s u ↔
      (c.Tracked s u ∧ s ≠ row.serial) ∨ (row.serial = s ∧ rowUrl row = u) := by
  constructor
  · rintro ⟨p, hp, rfl, rfl⟩
    rcases mem_addRow.mp hp with rfl | ⟨hp, hne⟩
    · exact Or.inr ⟨rfl, rfl⟩
    · exact Or.inl ⟨⟨p, hp, rfl, rfl⟩, hne⟩
  · rintro (⟨⟨p, hp, rfl, rfl⟩, hne⟩ | ⟨rfl, rfl⟩)
    · exact ⟨p, mem_addRow.mpr (Or.inr ⟨hp, hne⟩), rfl, rfl⟩
    · exact ⟨_, mem_addRow.mpr (Or.inl rfl), rfl, rfl⟩

theorem inv_addRow {c : Client} (h : c.Inv) (row : ReservedRow) : (c.addRow row).Inv := by
  have hold : ∀ {p : String × ConnectionInfo}, p ∈ (c.addRow row).connectionInfo →
      p = (row.serial, .ofRow c.nextOid row) ∨ p ∈ c.connectionInfo := fun hp =>
    (mem_addRow.mp hp).imp id And.left
  have hnext : (c.addRow row).nextOid = c.nextOid + 1 := rfl
  refine ⟨fun p hp => ?_, fun p hp => ?_, fun p hp q hq hpq => ?_, h.live⟩
  · rcases hold hp with rfl | hp
    · exact ⟨_, _, rfl⟩
    · exact h.ofRow p hp
  · rw [hnext]
    rcases hold hp with rfl | hp
    · exact Nat.lt_succ_self _
    · exact (h.oid_lt p hp).trans (Nat.lt_succ_self _)
  · rcases hold hp with rfl | hp <;> rcases hold hq with rfl | hq
    · rfl
    · exact absurd hpq.symm (Nat.ne_of_lt (h.oid_lt q hq))
    · exact absurd hpq (Nat.ne_of_lt (h.oid_lt p hp))
    · exact h.oid_inj p hp q hq hpq

theorem inv_addRows {c : Client} (h : c.Inv) (rows : List ReservedRow) : (c.addRows rows).Inv := by
  induction rows generalizing c with
  | nil => exact h
  | cons r rows ih => exact ih (inv_addRow h r)

/-- **What the rows of an answer leave tracked**: their serials on their own
urls, and the other serials where they were. -/
theorem tracked_addRows {c : Client} {rows : List ReservedRow} {s u : String} :
    (c.addRows rows).Tracked s u ↔
      (c.Tracked s u ∧ s ∉ rows.map ReservedRow.serial) ∨
        ∃ row, LastRow rows row ∧ row.serial = s ∧ rowUrl row = u := by
  induction rows generalizing c with
  | nil =>
    constructor
    · exact fun h => Or.inl ⟨h, List.not_mem_nil⟩
    · rintro (⟨h, -⟩ | ⟨row, hrow, -⟩)
      · exact h
      · exact absurd hrow (not_lastRow_nil row)
  | cons r rows ih =>
    rw [addRows_cons, ih, tracked_addRow, List.map_cons, List.mem_cons, not_or]
    constructor
    · rintro (⟨⟨h, hne⟩ | ⟨rfl, rfl⟩, hnot⟩ | ⟨row, hrow, hs, hu⟩)
      · exact Or.inl ⟨h, hne, hnot⟩
      · exact Or.inr ⟨r, lastRow_cons.mpr (Or.inr ⟨rfl, hnot⟩), rfl, rfl⟩
      · exact Or.inr ⟨row, lastRow_cons.mpr (Or.inl hrow), hs, hu⟩
    · rintro (⟨h, hne, hnot⟩ | ⟨row, hrow, rfl, rfl⟩)
      · exact Or.inl ⟨Or.inl ⟨h, hne⟩, hnot⟩
      · rcases lastRow_cons.mp hrow with hrow | ⟨rfl, hnot⟩
        · exact Or.inr ⟨row, hrow, rfl, rfl⟩
        · exact Or.inl ⟨Or.inr ⟨rfl, rfl⟩, hnot⟩

@[simp] theorem workerSockets_addRows (c : Client) (rows : List ReservedRow) :
    (c.addRows rows).workerSockets = c.workerSockets := by
  induction rows generalizing c with
  | nil => rfl
  | cons r rows ih => exact ih (c.addRow r)

theorem connectWorker_spec (c : Client) (url : String) :
    (c.connectWorker url true).connectionInfo = c.connectionInfo ∧
      (c.connectWorker url true).nextOid = c.nextOid ∧
      (∀ u, u ∈ (c.connectWorker url true).workerSockets.keys ↔
        u ∈ c.workerSockets.keys ∨ u = url) ∧
      ((∀ p ∈ c.workerSockets, p.2 = true) →
        ∀ p ∈ (c.connectWorker url true).workerSockets, p.2 = true) := by
  rw [connectWorker]
  split
  · rename_i hmem
    exact ⟨rfl, rfl, fun u => ⟨Or.inl, fun hu => hu.elim id fun heq => heq ▸ hmem⟩, id⟩
  · rename_i hnew
    refine ⟨rfl, rfl, fun u => ?_, fun hlive p hp => ?_⟩
    · simp only [Table.mem_keys, Table.mem_put]
      constructor
      · rintro ⟨p, rfl | ⟨hp, -⟩, rfl⟩
        · exact Or.inr rfl
        · exact Or.inl ⟨p, hp, rfl⟩
      · rintro (⟨p, hp, rfl⟩ | rfl)
        · exact ⟨p, Or.inr ⟨hp, fun heq => hnew (heq ▸ Table.key_mem_keys hp)⟩, rfl⟩
        · exact ⟨_, Or.inl rfl, rfl⟩
    · rcases Table.mem_put.mp hp with rfl | ⟨hp, -⟩
      · rfl
      · exact hlive p hp

theorem connectWorkers_spec (c : Client) (serials : List String) :
    (c.connectWorkers serials).connectionInfo = c.connectionInfo ∧
      (c.connectWorkers serials).nextOid = c.nextOid ∧
      (∀ u, u ∈ (c.connectWorkers serials).workerSockets.keys ↔
        u ∈ c.workerSockets.keys ∨ ∃ s ∈ serials, c.Tracked s u) ∧
      ((∀ p ∈ c.workerSockets, p.2 = true) →
        ∀ p ∈ (c.connectWorkers serials).workerSockets, p.2 = true) := by
  induction serials generalizing c with
  | nil => exact ⟨rfl, rfl, fun u => by simp [connectWorkers], id⟩
  | cons s l ih =>
    cases hinfo : c.getConnectionInfo s with
    | none =>
      have hstep : c.connectWorkers (s :: l) = c.connectWorkers l := by
        simp only [connectWorkers, List.foldl_cons, hinfo]
      have hno : ∀ u, ¬c.Tracked s u := by
        rintro u ⟨p, hp, rfl, -⟩
        have hsome := getConnectionInfo_eq_some.mpr hp
        rw [hinfo] at hsome
        cases hsome
      obtain ⟨h₁, h₂, h₃, h₄⟩ := ih c
      refine hstep ▸ ⟨h₁, h₂, fun u => (h₃ u).trans (or_congr_right ?_), h₄⟩
      simp [hno u]
    | some info =>
      have hstep :
          c.connectWorkers (s :: l) = (c.connectWorker info.url true).connectWorkers l := by
        simp only [connectWorkers, List.foldl_cons, hinfo]
      obtain ⟨g₁, g₂, g₃, g₄⟩ := connectWorker_spec c info.url
      obtain ⟨h₁, h₂, h₃, h₄⟩ := ih (c.connectWorker info.url true)
      have htr : ∀ s' u, (c.connectWorker info.url true).Tracked s' u ↔ c.Tracked s' u := by
        intro s' u
        simp only [Tracked, g₁]
      have hs : ∀ u, c.Tracked s u ↔ u = info.url := by
        intro u
        have hmem := getConnectionInfo_eq_some.mp hinfo
        constructor
        · rintro ⟨p, hp, hps, rfl⟩
          rw [Table.eq_of_key_eq hp hmem hps]
        · rintro rfl
          exact ⟨_, hmem, rfl, rfl⟩
      rw [hstep]
      refine ⟨h₁.trans g₁, h₂.trans g₂, fun u => ?_, fun hlive => h₄ (g₄ hlive)⟩
      rw [h₃, g₃, or_assoc]
      refine or_congr_right ?_
      simp only [htr, List.mem_cons, exists_eq_or_imp, hs]

theorem inv_reserve {c : Client} (h : c.Inv) (rows : List ReservedRow) : (c.reserve rows).Inv := by
  have hadd := inv_addRows h rows
  obtain ⟨h₁, h₂, -, h₄⟩ := connectWorkers_spec (c.addRows rows) (rows.map ReservedRow.serial)
  rw [reserve]
  refine ⟨fun p hp => ?_, fun p hp => ?_, fun p hp q hq => ?_, h₄ hadd.live⟩
  · exact hadd.ofRow p (h₁ ▸ hp)
  · rw [h₂]
    exact hadd.oid_lt p (h₁ ▸ hp)
  · exact hadd.oid_inj p (h₁ ▸ hp) q (h₁ ▸ hq)

/-- **When reserving keeps the maps in step**: no serial of the answer was the
last one tracked on a url and moves off it. -/
theorem synced_reserve_iff {c : Client} (hs : c.Synced) {rows : List ReservedRow} :
    (c.reserve rows).Synced ↔
      ∀ s u, c.Tracked s u → s ∈ rows.map ReservedRow.serial →
        (∃ row, LastRow rows row ∧ rowUrl row = u) ∨
          ∃ s', c.Tracked s' u ∧ s' ∉ rows.map ReservedRow.serial := by
  obtain ⟨h₁, -, h₃, -⟩ := connectWorkers_spec (c.addRows rows) (rows.map ReservedRow.serial)
  have htr : ∀ s u, (c.reserve rows).Tracked s u ↔ (c.addRows rows).Tracked s u := by
    intro s u
    simp only [Tracked, reserve, h₁]
  have hkeys : ∀ u, u ∈ (c.reserve rows).workerSockets.keys ↔
      (∃ s, c.Tracked s u) ∨ ∃ s ∈ rows.map ReservedRow.serial, (c.addRows rows).Tracked s u := by
    intro u
    simp [reserve, h₃, hs u]
  constructor
  · intro hsync s u hsu _
    obtain ⟨s', hs'⟩ := (hsync u).mp ((hkeys u).mpr (Or.inl ⟨s, hsu⟩))
    rcases tracked_addRows.mp ((htr s' u).mp hs') with ⟨hold, hnot⟩ | ⟨row, hrow, -, hu⟩
    · exact Or.inr ⟨s', hold, hnot⟩
    · exact Or.inl ⟨row, hrow, hu⟩
  · intro hcond u
    rw [hkeys]
    constructor
    · rintro (⟨s, hsu⟩ | ⟨s, -, hsu⟩)
      · by_cases hmem : s ∈ rows.map ReservedRow.serial
        · rcases hcond s u hsu hmem with ⟨row, hrow, hu⟩ | ⟨s', hs'u, hnot⟩
          · exact ⟨row.serial, (htr _ _).mpr
              (tracked_addRows.mpr (Or.inr ⟨row, hrow, rfl, hu⟩))⟩
          · exact ⟨s', (htr _ _).mpr (tracked_addRows.mpr (Or.inl ⟨hs'u, hnot⟩))⟩
        · exact ⟨s, (htr _ _).mpr (tracked_addRows.mpr (Or.inl ⟨hsu, hmem⟩))⟩
      · exact ⟨s, (htr _ _).mpr hsu⟩
    · rintro ⟨s, hsu⟩
      have hadd := (htr _ _).mp hsu
      rcases tracked_addRows.mp hadd with ⟨hold, -⟩ | ⟨row, hrow, rfl, -⟩
      · exact Or.inl ⟨s, hold⟩
      · exact Or.inr ⟨row.serial, List.mem_map_of_mem hrow.mem, hadd⟩

/-! ### The exact condition -/

/-- **No url is left behind or shared with a serial that goes**: the serials an
operation untracks have their urls to themselves, and those a reservation
answer moves leave no url without a serial. -/
def KeepsUrls (c : Client) : Op → Prop
  | .reserve (some rows) => ∀ s u, c.Tracked s u → s ∈ rows.map ReservedRow.serial →
      (∃ row, LastRow rows row ∧ rowUrl row = u) ∨
        ∃ s', c.Tracked s' u ∧ s' ∉ rows.map ReservedRow.serial
  | .removeSerial serial | .handleReservationEnd serial | .handleFailure serial =>
    ∀ s u, c.Tracked s u → s ∈ [serial] → ∀ s', c.Tracked s' u → s' ∈ [serial]
  | .endSome (some serials) | .endAll (some serials) =>
    ∀ s u, c.Tracked s u → s ∈ serials → ∀ s', c.Tracked s' u → s' ∈ serials
  | .reserve none | .endSome none | .endAll none => True

theorem inv_step {c : Client} (h : c.Inv) (op : Op) : (c.step op).Inv := by
  match op with
  | .reserve (some rows) => exact inv_reserve h rows
  | .removeSerial serial => exact inv_removeSerial h serial
  | .endSome (some serials) => exact inv_removeAll h serials
  | .endAll (some serials) => exact inv_removeAll h serials
  | .handleReservationEnd serial => exact inv_removeSerial h serial
  | .handleFailure serial => exact inv_removeSerial h serial
  | .reserve none => exact h
  | .endSome none => exact h
  | .endAll none => exact h

theorem synced_step_iff {c : Client} (h : c.Inv) (hs : c.Synced) (op : Op) :
    (c.step op).Synced ↔ c.KeepsUrls op := by
  match op with
  | .reserve (some rows) => exact synced_reserve_iff hs
  | .removeSerial serial =>
    show (c.removeAll [serial]).Synced ↔ _
    exact synced_removeAll_iff h hs
  | .endSome (some serials) => exact synced_removeAll_iff h hs
  | .endAll (some serials) => exact synced_removeAll_iff h hs
  | .handleReservationEnd serial =>
    show (c.removeAll [serial]).Synced ↔ _
    exact synced_removeAll_iff h hs
  | .handleFailure serial =>
    show (c.removeAll [serial]).Synced ↔ _
    exact synced_removeAll_iff h hs
  | .reserve none => exact iff_of_true hs trivial
  | .endSome none => exact iff_of_true hs trivial
  | .endAll none => exact iff_of_true hs trivial

/-- **Sockets follow serials exactly when urls are not shared with a serial
that goes.** For every sequence of operations and events, the urls with a
socket are those of the tracked serials after every one of them if and only if
each of them meets `UsbipIce.Client.KeepsUrls` in the state it finds. -/
theorem along_synced_iff (ops : List Op) :
    machine.Along Synced start ops ↔ machine.Meets KeepsUrls start ops := by
  refine Machine.along_iff_meets (I := Inv) ?_ ?_ ?_ inv_start synced_start
  · intro c op c' h hstep
    obtain rfl := Option.some.inj hstep
    exact inv_step h op
  · intro c op c' h hs hstep
    obtain rfl := Option.some.inj hstep
    exact synced_step_iff h hs op
  · intro c op hnone
    cases hnone

/-- Two serials on one worker, of which one is removed. -/
def twoOnOneWorker : List Op :=
  [.reserve (some [⟨"A", "10.0.0.1", 8081⟩, ⟨"B", "10.0.0.1", 8081⟩]), .removeSerial "A"]

/-- **Removing one of two serials closes the socket of the other.** -/
theorem twoOnOneWorker_disconnects :
    ∃ c, machine.run start twoOnOneWorker = some c ∧
      c.Tracked "B" "http://10.0.0.1:8081" ∧
      "http://10.0.0.1:8081" ∉ c.workerSockets.keys ∧ ¬c.Synced := by
  refine ⟨_, rfl, ⟨("B", .ofRow 1 ⟨"B", "10.0.0.1", 8081⟩), by decide, rfl, rfl⟩, by decide,
    fun hsync => ?_⟩
  have hkey := (hsync "http://10.0.0.1:8081").mpr
    ⟨"B", ("B", .ofRow 1 ⟨"B", "10.0.0.1", 8081⟩), by decide, rfl, rfl⟩
  exact absurd hkey (by decide)

end Client

end UsbipIce
