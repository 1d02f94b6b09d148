import UsbipIce.Control.Statements
import UsbipIce.EventSender.Delivery

/-!
# Events for whoever holds a device

`sendSerialJson` of `utils/EventSender.py`, down to the query behind it and up to
`DeviceEventSender.sendDeviceEvent`: the client that holds the reservation of a
device is looked up, and the event is sent to its session.

Whether that worked is told by what the methods return, and each of them has its
own way. `__getReservationClientId` answers the client id, `None` where there is
no reservation, and `False` on an error; `sendSerial` answers `None` whatever
happens; `sendSerialJson` answers `False` where the event cannot be serialised,
and otherwise `True` without a look at the answer of `sendSerial`
(`UsbipIce.sendDeviceEvent_eq`).
-/

namespace UsbipIce

open Lib Database

/-- What a method returns. -/
inductive Returned where
  | none
  | bool (b : Bool)
  | str (s : String)
  deriving DecidableEq, Repr

/-- Its truth value. -/
def Returned.truthy : Returned → Bool
  | .none => false
  | .bool b => b
  | .str s => decide (s ≠ "")

/-! ### The lookup -/

namespace Database

/-- `getDeviceCallback`: raises where the device does not exist. -/
def getDeviceCallback (deviceserial : String) : Function := fun db =>
  if deviceserial ∈ db.device.keys then
    let query := Relation.ofRows ReservationRow.columns
      [(⟨"getdevicecallback", "deviceserial"⟩, .text deviceserial),
        (⟨"getdevicecallback", "ClientId"⟩, .null)]
      (db.reservations.rows.filter fun r => r.device = deviceserial) ReservationRow.values
      ReservationRow.length_values
    (query.returnQuery ["ClientId"] [.bare "clientname"]).map fun rows => (db, rows)
  else none

/-- The client that holds the reservation of a device. -/
def holder (db : Database) (serial : String) : Option String :=
  (db.reservations.find? serial).map ReservationRow.clientName

@[simp] theorem getDeviceCallback_eq (db : Database) (serial : String) :
    getDeviceCallback serial db = if serial ∈ db.device.keys then
      some (db, (db.holder serial).toList.map fun c => [.text c]) else none := by
  have hrefs : Relation.resolveAll ReservationRow.columns [.bare "clientname"] = some [1] := by
    decide
  have hrows := db.reservations.filter_key serial
  rw [getDeviceCallback]
  split
  · dsimp only
    rw [Relation.returnQuery_ofRows ReservationRow.length_values
      (by simp [ColumnRef.refersTo]) hrefs rfl, hrows, holder]
    cases db.reservations.find? serial with
    | none => rfl
    | some r => rfl
  · rfl

end Database

/-- `EventSender.__getReservationClientId`, on the database as the query finds
it, or on none where it cannot be reached. -/
def getReservationClientId (db : Option Database) (serial : String) : Returned :=
  match db.bind (getDeviceCallback serial) with
  | none => .bool false
  | some (_, []) => .none
  | some (_, row :: _) =>
    match row.head? with
    | some (.text clientId) => .str clientId
    | some (.int _) | some .null | none => .none

/-- **What the lookup answers.** A device with a reservation exists. -/
@[simp] theorem getReservationClientId_eq (db : Option Database) (serial : String) :
    getReservationClientId db serial =
      match db.bind fun db => db.holder serial with
      | some clientId => .str clientId
      | none => if (db.any fun db => serial ∈ db.device.keys) then .none else .bool false := by
  cases db with
  | none => rfl
  | some db =>
    rw [getReservationClientId, Option.bind_some, Option.bind_some, getDeviceCallback_eq,
      Option.any_some]
    by_cases hmem : serial ∈ db.device.keys
    · rw [if_pos hmem]
      cases db.holder serial with
      | none => simp [hmem]
      | some c => rfl
    · have hnone : db.holder serial = none := by
        rw [holder, Option.map_eq_none_iff, Table.find?_eq_none]
        exact fun hres => hmem (IsReserved.mem_keys hres)
      rw [if_neg hmem, hnone]
      simp [hmem]

/-! ### The methods -/

/-- What a method does: the call of `sendClient` it makes, if any, with the
client id and the contents; and what it returns. -/
structure Performed where
  client : Option (String × String)
  returned : Returned
  deriving DecidableEq, Repr

/-- `EventSender.sendSerial`, after the lookup. -/
def sendSerial (clientId : Returned) (contents : String) : Performed :=
  match clientId with
  | .str c => if c = "" then ⟨none, .none⟩ else ⟨some (c, contents), .none⟩
  | .none | .bool _ => ⟨none, .none⟩

/-- What `__packageContents` returns, by the answer of `json.dumps`. -/
def packaged : Option String → Returned
  | some text => .str text
  | none => .bool false

/-- `EventSender.sendSerialJson`, by what `__packageContents` returns and what
the lookup answers. -/
def sendSerialJson (contents clientId : Returned) : Performed :=
  match contents.truthy, contents with
  | true, .str text => ⟨(sendSerial clientId text).client, .bool true⟩
  | _, _ => ⟨none, .bool false⟩

/-- `DeviceEventSender.sendDeviceEvent`. -/
def sendDeviceEvent (contents clientId : Returned) : Performed :=
  if (sendSerialJson contents clientId).returned.truthy then
    ⟨(sendSerialJson contents clientId).client, .bool true⟩
  else ⟨(sendSerialJson contents clientId).client, .bool false⟩

/-- **What `sendDeviceEvent` returns** tells whether the event was serialised,
and nothing of the lookup. -/
theorem sendDeviceEvent_eq (dumped : Option String) (clientId : Returned) :
    sendDeviceEvent (packaged dumped) clientId =
      match dumped with
      | some text =>
        if text = "" then ⟨none, .bool false⟩
        else ⟨(sendSerial clientId text).client, .bool true⟩
      | none => ⟨none, .bool false⟩ := by
  cases dumped with
  | none => rfl
  | some text =>
    by_cases htext : text = ""
    · subst htext
      rfl
    · simp [sendDeviceEvent, sendSerialJson, packaged, Returned.truthy, htext]

end UsbipIce
