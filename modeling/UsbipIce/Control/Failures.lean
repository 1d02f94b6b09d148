import UsbipIce.Control.Timeouts
import UsbipIce.EventSender.Delivery

/-!
# Telling of workers that have failed

The job of `Heartbeat.__startWorkerTimeouts`: it times out the workers that are
late and sends a `failure` event for every row it gets back. The rows come from a
join evaluated before the delete; the delete takes devices and reservations by
its cascade. Nothing is lost between them: the events appended to the sessions of
the control are one for each reservation deleted, to its client
(`UsbipIce.Heartbeat.failures_told`).
-/

namespace UsbipIce

open Lib Database

/-- `ControlDatabase.getWorkerTimeouts`. -/
def Database.getWorkerTimeouts (db : Database) (now timeoutDur : ℤ) : Database × Fetched :=
  db.getData (handleWorkerTimeouts now timeoutDur) ["serial", "client_id", "worker"] []

/-- What `ControlEventSender.sendDeviceFailure` gives `sendClientJson` to
package. -/
def failureEvent (serial : String) : Package String :=
  packageContents id serial ⟨[("event", "failure")], by decide⟩

namespace Heartbeat

/-- `row[col]`, where it is text. -/
def textAt (row : RowDict) (col : String) : Option String :=
  match row.lookup col with
  | some (.text s) => some s
  | _ => none

/-- The calls of `sendClient` that the loop over the rows makes, each with its
client. -/
def sendDeviceFailures : List RowDict → List (String × Package String)
  | [] => []
  | row :: data =>
    match textAt row "serial", textAt row "client_id" with
    | some serial, some clientId => (clientId, failureEvent serial) :: sendDeviceFailures data
    -- a column that is missing ends the thread
    | _, _ => []

/-- The job of `__startWorkerTimeouts`: the tables it leaves, and the calls of
`sendClient` it makes. -/
def workerTimeouts (db : Database) (now timeoutDur : ℤ) :
    Database × List (String × Package String) :=
  let fetched := db.getWorkerTimeouts now timeoutDur
  (fetched.1,
    match fetched.2 with
    | .rows data => sendDeviceFailures data
    | .failed | .raised => [])

/-- **The calls of the job** are those due for the reservations deleted. -/
theorem workerTimeouts_eq (db : Database) (now timeoutDur : ℤ) :
    workerTimeouts db now timeoutDur =
      (db.deleteWorkers (isLate now timeoutDur),
        (db.joinTimeouts (isLate now timeoutDur)).map fun x =>
          (x.reservation.clientName, failureEvent x.device.serialId)) := by
  have hdata : db.getWorkerTimeouts now timeoutDur = (db.deleteWorkers (isLate now timeoutDur),
      .rows ((db.joinTimeouts (isLate now timeoutDur)).map fun x =>
        [("serial", .text x.device.serialId), ("client_id", .text x.reservation.clientName),
          ("worker", .text x.worker.workerName)])) := by
    rw [getWorkerTimeouts, getData, execute, handleWorkerTimeouts_eq]
    exact Prod.ext rfl (fetched_map fun x => rfl)
  rw [workerTimeouts, hdata]
  refine Prod.ext rfl ?_
  induction db.joinTimeouts (isLate now timeoutDur) with
  | nil => rfl
  | cons x xs ih => exact congrArg (_ :: ·) ih

end Heartbeat

end UsbipIce
