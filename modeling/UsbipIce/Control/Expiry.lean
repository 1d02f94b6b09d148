import Mathlib.Algebra.BigOperators.Group.List.Basic
import Mathlib.Algebra.GroupWithZero.Nat
import UsbipIce.Control.Database

/-!
# Telling of ended reservations

Two classes tell a client and a worker that a reservation has ended: `Control`,
where the client asked for it, and `Heartbeat`, where it has expired. Each has a
`__notifyEnd` of its own, with its own order of parameters, and the job of
`Heartbeat` calls its own with the serial, the ip and the port of a row, in the
places of the client, the worker's url and the serial.

No request of the job is right, then, and no event: the messages of the two
paths are the same only where there is nothing to tell
(`UsbipIce.Heartbeat.reservationTimeouts_perm_iff`).
-/

namespace UsbipIce

open Database

/-! ### Messages -/

/-- What is sent about a reservation that has ended. Whether it arrives decides
only what is logged. -/
inductive Notification where
  /-- `sendClientJson` to a client: the serial, and the event about it. -/
  | event (clientId serial event : String)
  /-- `requests.get` on a url, with the serial in its body. -/
  | get (url serial : String)
  deriving DecidableEq, Repr

/-- `ControlEventSender.sendDeviceReservationEnd`. -/
def sendDeviceReservationEnd (serial clientId : String) : Notification :=
  .event clientId serial "reservation end"

/-- The url of a worker's server. -/
def workerUrl (ip : String) (port : ℤ) : String := "http://" ++ ip ++ ":" ++ toString port

/-! ### The explicit end -/

namespace Control

/-- `Control.__notifyEnd`. -/
def notifyEnd (clientId serial url : String) : List Notification :=
  [sendDeviceReservationEnd serial clientId, .get (url ++ "/unreserve") serial]

/-- What `Control.end` and `Control.endAll` send, on the rows the database
returns. -/
def endMessages (clientId : String) (data : List EndedRow) : List Notification :=
  data.flatMap fun row => notifyEnd clientId row.serial (workerUrl row.workerip row.workerport)

end Control

/-! ### The expiry -/

/-- A row of `ControlDatabase.getReservationTimeouts`. -/
structure ExpiredRow where
  serial : String
  clientId : String
  workerip : String
  workerport : ℤ
  deriving DecidableEq, Repr

/-- The row that an explicit end would return. -/
def ExpiredRow.ended (row : ExpiredRow) : EndedRow := ⟨row.serial, row.workerip, row.workerport⟩

/-- What is due for a row: an event to its client, and a request to its
worker. -/
def ExpiredRow.due (row : ExpiredRow) : List Notification :=
  [.event row.clientId row.serial "reservation end",
    .get ("http://" ++ row.workerip ++ ":" ++ toString row.workerport ++ "/unreserve") row.serial]

namespace Heartbeat

/-- `Heartbeat.__notifyEnd`. -/
def notifyEnd (clientId url serial : String) : List Notification :=
  [sendDeviceReservationEnd serial clientId, .get (url ++ "/unreserve") serial]

/-- What the job of `__startReservationTimeouts` sends. -/
def reservationTimeouts (data : List ExpiredRow) : List Notification :=
  data.flatMap fun row => notifyEnd row.serial row.workerip (toString row.workerport)

end Heartbeat

/-! ### The two compared -/

/-- Calls of `Control.end` by which the clients end the expired reservations:
each with its client and the rows returned, these being the rows expired. -/
def Ends (calls : List (String × List EndedRow)) (rows : List ExpiredRow) : Prop :=
  (calls.flatMap fun c => c.2.map fun r => (c.1, r)).Perm (rows.map fun r => (r.clientId, r.ended))

/-- **The explicit end sends what is due.** -/
theorem Control.endMessages_perm {calls : List (String × List EndedRow)} {rows : List ExpiredRow}
    (h : Ends calls rows) :
    (calls.flatMap fun c => endMessages c.1 c.2).Perm (rows.flatMap ExpiredRow.due) := by
  have hcalls : (calls.flatMap fun c => endMessages c.1 c.2) =
      (calls.flatMap fun c => c.2.map fun r => (c.1, r)).flatMap fun p =>
        notifyEnd p.1 p.2.serial (workerUrl p.2.workerip p.2.workerport) := by
    rw [List.flatMap_assoc]
    refine List.flatMap_congr fun c _ => ?_
    rw [List.flatMap_map]
    rfl
  have hrows : rows.flatMap ExpiredRow.due =
      (rows.map fun r => (r.clientId, r.ended)).flatMap fun p =>
        notifyEnd p.1 p.2.serial (workerUrl p.2.workerip p.2.workerport) := by
    rw [List.flatMap_map]
    rfl
  rw [hcalls, hrows]
  exact h.flatMap_right _

/-- How long the url of a message is. -/
def Notification.urlLength : Notification → ℕ
  | .event .. => 0
  | .get url _ => url.length

/-- The urls of what is due are longer, together, than those of what the job
requests. -/
theorem Heartbeat.sum_urlLength (rows : List ExpiredRow) :
    ((reservationTimeouts rows).map Notification.urlLength).sum + 8 * rows.length ≤
      ((rows.flatMap ExpiredRow.due).map Notification.urlLength).sum := by
  have hscheme : "http://".length = 7 := by decide
  have hcolon : ":".length = 1 := by decide
  induction rows with
  | nil => exact Nat.le_refl _
  | cons row rows ih =>
    have hjob : ((notifyEnd row.serial row.workerip (toString row.workerport)).map
        Notification.urlLength).sum = row.workerip.length + "/unreserve".length := by
      rw [notifyEnd, List.map_cons, List.map_singleton, List.sum_cons, List.sum_singleton]
      simp only [sendDeviceReservationEnd, Notification.urlLength, String.length_append,
        Nat.zero_add]
    have hdue : (row.due.map Notification.urlLength).sum =
        7 + row.workerip.length + 1 + (toString row.workerport).length + "/unreserve".length := by
      rw [ExpiredRow.due, List.map_cons, List.map_singleton, List.sum_cons, List.sum_singleton]
      simp only [Notification.urlLength, String.length_append, hscheme, hcolon, Nat.zero_add]
    rw [reservationTimeouts, List.flatMap_cons, List.flatMap_cons, List.map_append,
      List.map_append, List.sum_append, List.sum_append, hjob, hdue, List.length_cons]
    rw [reservationTimeouts] at ih
    omega

/-- **The expiry and the explicit end never agree but on nothing.** Whatever
rows have expired, and in whatever calls the clients would have ended them: the
calls send what is due, and the job sends the same messages, in any order,
exactly when there are no rows. -/
theorem Heartbeat.reservationTimeouts_perm_iff {calls : List (String × List EndedRow)}
    {rows : List ExpiredRow} (h : Ends calls rows) :
    (calls.flatMap fun c => Control.endMessages c.1 c.2).Perm (rows.flatMap ExpiredRow.due) ∧
      ((reservationTimeouts rows).Perm (calls.flatMap fun c => Control.endMessages c.1 c.2) ↔
        rows = []) := by
  have hdue := Control.endMessages_perm h
  refine ⟨hdue, ?_, ?_⟩
  · intro hperm
    have hsum : ((reservationTimeouts rows).map Notification.urlLength).sum =
        ((rows.flatMap ExpiredRow.due).map Notification.urlLength).sum :=
      ((hperm.trans hdue).map _).sum_eq
    have hle := sum_urlLength rows
    rw [← List.length_eq_zero_iff]
    omega
  · rintro rfl
    exact hdue.symm

/-- An expired reservation. -/
def oneExpired : ExpiredRow := ⟨"A", "client", "10.0.0.1", 8081⟩

/-- Where nothing has expired, nothing is sent; and the end that its client asks for
sends what is due for the one reservation, but the job does not. -/
theorem Heartbeat.reservationTimeouts_nothing :
    (reservationTimeouts []).Perm
        (([] : List (String × List EndedRow)).flatMap fun c => Control.endMessages c.1 c.2) ∧
      (Control.endMessages "client" [⟨"A", "10.0.0.1", 8081⟩]).Perm oneExpired.due ∧
      ¬(reservationTimeouts [oneExpired]).Perm
        (Control.endMessages "client" [⟨"A", "10.0.0.1", 8081⟩]) := by
  have hnone : Ends [] [] := List.Perm.refl _
  have hone : Ends [("client", [⟨"A", "10.0.0.1", 8081⟩])] [oneExpired] := List.Perm.refl _
  obtain ⟨hdue, hagree⟩ := reservationTimeouts_perm_iff hone
  refine ⟨(reservationTimeouts_perm_iff hnone).2.mpr rfl, hdue, fun hperm => ?_⟩
  exact List.cons_ne_nil _ _ (hagree.mp hperm)

/-- **An expired reservation nobody hears of**: the job tells the "client" `A` of
the "serial" 8081, and asks for no url of the worker. -/
theorem Heartbeat.reservationTimeouts_misaddressed :
    ¬(reservationTimeouts [oneExpired]).Perm
      (Control.endMessages "client" [⟨"A", "10.0.0.1", 8081⟩]) := by
  decide

end UsbipIce
