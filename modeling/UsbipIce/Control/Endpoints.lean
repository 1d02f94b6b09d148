import UsbipIce.Control.Statements
import UsbipIce.Utils.Web
import Mathlib.Algebra.Ring.Int.Defs

/-!
# The endpoints of control

What a request to control comes to: the wrapper of `inject_and_return_json` looks
at the JSON of the request, `Control` goes through a function of the database, and
Flask turns what came out into a response. The status of the response is 500 where
the handler has returned `False` or has raised, and its body is empty unless the
handler has returned something of its own.

A response carries less than a handler returns. `True`, `False`, `None` and an
exception are one and the same to `BaseAPI.request`, which is `False` unless the
handler was called and has returned something else
(`UsbipIce.Http.request_response`). Of the handlers here none returns `True` or
`None`, and so what their requests come to is one of two things: control has
answered with the rows of the transaction it has gone through, or it has gone
through none and the answer reads as `False` (`UsbipIce.Endpoint.handle_reserve`,
`UsbipIce.Endpoint.handle_endSome`, `UsbipIce.Endpoint.handle_endAll`).

A database that is not reached is as one whose function raises. Flask sorts the
keys of an object; it is read by its keys alone, and the order is left as it is.
-/

namespace UsbipIce

open Lib Utils

/-! ### Responses -/

/-- A number of JSON: an integer or a float, which is nothing but refused here. -/
inductive Number where
  | int (n : ℤ)
  | float (text : String)
  deriving DecidableEq, Repr

/-- Whether it is an `int`. -/
def Number.isInt : Number → Bool
  | int _ => true
  | float _ => false

namespace Http

/-- A response, with what `json()` makes of its body unless it raises. -/
structure Response where
  statusCode : ℕ
  json : Option (Json Number)

/-- The response to a request of which the wrapper has made something. -/
def response (w : Wrapped Number) : Response :=
  match w.answer with
  | none => ⟨500, none⟩
  | some (.response status) => ⟨status, none⟩
  | some (.jsonify res) => ⟨200, some res⟩

/-- `BaseAPI.request`: what it makes of the response, or of none where
`requests.get` has raised. -/
def request : Option Response → Json Number
  | none => .bool false
  | some res => if res.statusCode ≠ 200 then .bool false else res.json.getD (.bool false)

/-- What of a handler's result gets to the client. -/
def received : Json Number → Json Number
  | .bool _ | .null => .bool false
  | res => res

@[simp] theorem request_answerOf (calls : List (List (Json Number))) (res : Json Number) :
    request (some (response ⟨calls, some (answerOf res)⟩)) = received res := by
  cases res with
  | bool b => cases b <;> rfl
  | _ => rfl

/-- **What the client learns of a request**: where the handler was called, what it
has returned, unless this is `None` or a truth value; and `False` otherwise. -/
theorem request_response {params : List (String × Option Builtin)}
    {func : List (Json Number) → Option (Json Number)} {fields : List (String × Json Number)} :
    request (some (response (handlerWrapper (Builtin.isinstance Number.isInt)
        (params.map parameter) func ⟨"application/json", some (.object fields)⟩))) =
      if ∀ p ∈ params, ∀ c, p.2 = some c →
          Builtin.isinstance Number.isInt (getValue fields p.1) c = true then
        ((func (valuesOf params fields)).map received).getD (.bool false)
      else .bool false := by
  rw [handlerWrapper_object]
  split
  · cases func (valuesOf params fields) with
    | none => rfl
    | some res => exact request_answerOf _ res
  · rfl

end Http

/-! ### Values and rows as JSON -/

/-- A value of the database in a response. -/
def SqlValue.json : SqlValue → Json Number
  | .text s => .str s
  | .int n => .number (.int n)
  | .null => .null

/-- A row of `getData` in a response. -/
def RowDict.json (row : RowDict) : Json Number := .object (row.map fun e => (e.1, e.2.json))

/-- What `getData` returns, as the result of a handler. -/
def Fetched.json : Fetched → Option (Json Number)
  | .failed => some (.bool false)
  | .raised => none
  | .rows data => some (.array (data.map RowDict.json))

/-- `row["serial"]`, of a row of `getData`. -/
def RowDict.serial (row : RowDict) : Option String :=
  match row.lookup "serial" with
  | some (.text s) => some s
  | some (.int _) | some .null | none => none

/-- A list of serials in a request or a response. -/
def serialsJson (serials : List String) : Json Number := .array (serials.map Json.str)

/-! ### The functions of the database -/

namespace Database

/-- The values of a row that `makeReservations` returns. -/
def ReservedRow.values (r : ReservedRow) : List SqlValue :=
  [.text r.serial, .text r.ip, .int r.serverport]

/-- The row of `getData`. -/
def ReservedRow.dict (r : ReservedRow) : RowDict :=
  [("serial", .text r.serial), ("ip", .text r.ip), ("serverport", .int r.serverport)]

/-- The values of a row that `endReservations` returns. -/
def EndedRow.values (r : EndedRow) : List SqlValue :=
  [.text r.serial, .text r.workerip, .int r.workerport]

/-- The row of `getData`, with its port as a string. -/
def EndedRow.dict (r : EndedRow) : RowDict :=
  [("serial", .text r.serial), ("workerip", .text r.workerip),
    ("workerport", .text (toString r.workerport))]

/-- `SELECT * FROM makeReservations(…::int, …)`; the cast raises for what has no
32 bits. -/
def selectMakeReservations (amount : ℤ) (clientName : String) (now : ℤ) (res : List ReservedRow) :
    Function := fun db =>
  if -2 ^ 31 ≤ amount ∧ amount < 2 ^ 31 then
    (db.makeReservations amount clientName now res).map fun p => (p.1, p.2.map ReservedRow.values)
  else none

/-- `SELECT * FROM` a function that ends reservations. -/
def selectEnded (f : Database → Database × List EndedRow) : Function := fun db =>
  some ((f db).1, (f db).2.map EndedRow.values)

/-- A function of a database, which is reached or not. -/
def Function.ifReached (f : Function) (reached : Bool) : Function := fun db =>
  if reached then f db else none

/-- `ControlDatabase.reserve`. -/
def getReserved (db : Database) (f : Function) : Database × Fetched :=
  db.getData f ["serial", "ip", "serverport"] ["ip"]

/-- `ControlDatabase.end` and `ControlDatabase.endAll`. -/
def getEnded (db : Database) (f : Function) : Database × Fetched :=
  db.getData f ["serial", "workerip", "workerport"] ["workerip", "workerport"]

@[simp] theorem ReservedRow.stringify_values (r : ReservedRow) :
    stringify (["serial", "ip", "serverport"].zip r.values) ["ip"] = some r.dict := rfl

@[simp] theorem EndedRow.stringify_values (r : EndedRow) :
    stringify (["serial", "workerip", "workerport"].zip r.values) ["workerip", "workerport"] =
      some r.dict := rfl

/-- Where the function raises, or the database is not reached. -/
theorem getData_of_none {db : Database} {f : Function} (h : f db = none)
    (columns cols : List String) : db.getData f columns cols = (db, .failed) := by
  rw [getData, execute, h]
  rfl

/-- Where it returns rows that have the columns. -/
theorem getData_of_some {ρ : Type*} {db db' : Database} {f : Function} {columns cols : List String}
    {values : ρ → List SqlValue} {dict : ρ → RowDict}
    (hdict : ∀ r, stringify (columns.zip (values r)) cols = some (dict r)) {rows : List ρ}
    (h : f db = some (db', rows.map values)) :
    db.getData f columns cols = (db', .rows (rows.map dict)) := by
  rw [getData, execute, h]
  exact congrArg (Prod.mk db') (fetched_map hdict)

/-- **What `ControlDatabase.reserve` comes to**: the rows of the transaction, or
no transaction. -/
theorem getReserved_select (db : Database) (amount : ℤ) (clientName : String) (now : ℤ)
    (res : List ReservedRow) (reached : Bool) :
    (∃ db' rows, db.makeReservations amount clientName now res = some (db', rows) ∧
        db.getReserved ((selectMakeReservations amount clientName now res).ifReached reached) =
          (db', .rows (rows.map ReservedRow.dict))) ∨
      db.getReserved ((selectMakeReservations amount clientName now res).ifReached reached) =
        (db, .failed) := by
  cases hf : (selectMakeReservations amount clientName now res).ifReached reached db with
  | none => exact Or.inr (getData_of_none hf _ _)
  | some p =>
    have hreached : selectMakeReservations amount clientName now res db = some p :=
      (Option.ite_none_right_eq_some.mp hf).2
    have hcast := (Option.ite_none_right_eq_some.mp hreached).2
    obtain ⟨q, hmade, rfl⟩ := Option.map_eq_some_iff.mp hcast
    exact Or.inl ⟨q.1, q.2, hmade, getData_of_some ReservedRow.stringify_values hf⟩

/-- **What `ControlDatabase.end` comes to.** -/
@[simp] theorem getEnded_select (db : Database) (f : Database → Database × List EndedRow)
    (reached : Bool) :
    db.getEnded ((selectEnded f).ifReached reached) =
      if reached then ((f db).1, .rows ((f db).2.map EndedRow.dict)) else (db, .failed) := by
  cases reached with
  | false => exact getData_of_none rfl _ _
  | true => exact getData_of_some EndedRow.stringify_values rfl

end Database

/-! ### The handlers -/

open Database

/-- What comes of a call of a handler: the tables it leaves, the serials it tells
the client of one after the other before it returns, and what it returns unless it
raises. -/
structure HandlerCall where
  database : Database
  told : List String
  result : Option (Json Number)

/-- The outside world of one request: the time, the rows a `LIMIT` picks, and
whether the database is reached. -/
structure Circumstances where
  now : ℤ
  res : List ReservedRow
  reached : Bool

/-- The endpoints for reserving and for ending. -/
inductive Endpoint where
  | reserve
  | endSome
  | endAll
  deriving DecidableEq, Repr

namespace Endpoint

/-- The signature of the handler in `create_app`. -/
def params : Endpoint → List (String × Option Builtin)
  | reserve => [("amount", some .int), ("name", some .str), ("kind", some .str),
      ("args", some .dict)]
  | endSome => [("name", some .str), ("serials", some .list)]
  | endAll => [("name", some .str)]

/-- The integer that an argument of class `int` is for the database, where a truth
value is 0 or 1. -/
def amountOf : Json Number → Option ℤ
  | .number (.int n) => some n
  | .bool b => some (if b then 1 else 0)
  | .null | .number (.float _) | .str _ | .array _ | .object _ => none

/-- A string. -/
def stringOf : Json Number → Option String
  | .str s => some s
  | .null | .bool _ | .number _ | .array _ | .object _ => none

/-- `Control.reserve`. -/
def controlReserve (db : Database) (clientId : String) (amount : ℤ) (c : Circumstances) :
    HandlerCall :=
  let conInfo := db.getReserved
    ((selectMakeReservations amount clientId c.now c.res).ifReached c.reached)
  ⟨conInfo.1, [], conInfo.2.json⟩

/-- `Control.end` and `Control.endAll`, which raise where the rows are `False`. -/
def controlEnd (db : Database) (f : Database → Database × List EndedRow) (c : Circumstances) :
    HandlerCall :=
  let data := db.getEnded ((selectEnded f).ifReached c.reached)
  match data.2 with
  | .failed | .raised => ⟨data.1, [], none⟩
  | .rows rows =>
    match rows.mapM RowDict.serial with
    | none => ⟨data.1, [], none⟩
    | some serials => ⟨data.1, serials, some (serialsJson serials)⟩

/-- The handlers of `create_app`. -/
def handler (db : Database) (c : Circumstances) : Endpoint → List (Json Number) → HandlerCall
  | reserve, [amount, .str name, .str _, .object _] =>
    (amountOf amount).elim ⟨db, [], none⟩ fun amount => controlReserve db name amount c
  | endSome, [.str name, .array serials] =>
    (serials.mapM stringOf).elim ⟨db, [], none⟩ fun serials =>
      controlEnd db (fun db => db.endReservations name serials) c
  | endAll, [.str name] => controlEnd db (fun db => db.endAllReservations name) c
  | reserve, _ | endSome, _ | endAll, _ => ⟨db, [], none⟩

/-- The wrapped handler, on the JSON of a request. -/
def wrapped (db : Database) (c : Circumstances) (e : Endpoint) (json : Json Number) :
    Wrapped Number :=
  handlerWrapper (Builtin.isinstance Number.isInt) (e.params.map parameter)
    (fun args => (e.handler db c args).result) ⟨"application/json", some json⟩

/-- A request that control has gone through as far as the database: the tables,
the serials still to be told of, and the response. -/
structure Outcome where
  database : Database
  told : List String
  response : Http.Response

/-- **What a request comes to.** -/
def handle (db : Database) (c : Circumstances) (e : Endpoint) (json : Json Number) : Outcome :=
  match (e.wrapped db c json).calls with
  | [] => ⟨db, [], Http.response (e.wrapped db c json)⟩
  | args :: _ =>
    let handled := e.handler db c args
    ⟨handled.database, handled.told, Http.response (e.wrapped db c json)⟩

/-- An object with values of the classes of the signature. -/
def Accepts (e : Endpoint) (fields : List (String × Json Number)) : Prop :=
  ∀ p ∈ e.params, ∀ c, p.2 = some c →
    Builtin.isinstance Number.isInt (getValue fields p.1) c = true

instance (e : Endpoint) (fields : List (String × Json Number)) : Decidable (e.Accepts fields) :=
  inferInstanceAs (Decidable (∀ p ∈ e.params, ∀ c, p.2 = some c → _))

theorem wrapped_object (db : Database) (c : Circumstances) (e : Endpoint)
    (fields : List (String × Json Number)) :
    e.wrapped db c (.object fields) =
      if e.Accepts fields then
        ⟨[valuesOf e.params fields],
          (e.handler db c (valuesOf e.params fields)).result.map answerOf⟩
      else ⟨[], some (.response 400)⟩ :=
  handlerWrapper_object

/-- **A request is refused, or its handler is called.** -/
theorem handle_object (db : Database) (c : Circumstances) (e : Endpoint)
    (fields : List (String × Json Number)) :
    e.handle db c (.object fields) =
      if e.Accepts fields then
        ⟨(e.handler db c (valuesOf e.params fields)).database,
          (e.handler db c (valuesOf e.params fields)).told,
          Http.response ⟨[valuesOf e.params fields],
            (e.handler db c (valuesOf e.params fields)).result.map answerOf⟩⟩
      else ⟨db, [], ⟨400, none⟩⟩ := by
  have hwrapped := e.wrapped_object db c fields
  by_cases h : e.Accepts fields
  · rw [if_pos h] at hwrapped ⊢
    rw [handle, hwrapped]
  · rw [if_neg h] at hwrapped ⊢
    rw [handle, hwrapped]
    rfl

/-! ### Instances of the classes -/

theorem exists_amountOf {j : Json Number}
    (h : Builtin.isinstance Number.isInt j .int = true) : ∃ n, amountOf j = some n := by
  cases j with
  | bool b => exact ⟨_, rfl⟩
  | number n =>
    cases n with
    | int n => exact ⟨n, rfl⟩
    | float text => cases h
  | null | str s | array l | object fields => cases h

theorem exists_str {j : Json Number} (h : Builtin.isinstance Number.isInt j .str = true) :
    ∃ s, j = .str s := by
  cases j with
  | str s => exact ⟨s, rfl⟩
  | null | bool b | number n | array l | object fields => cases h

theorem exists_object {j : Json Number} (h : Builtin.isinstance Number.isInt j .dict = true) :
    ∃ fields, j = .object fields := by
  cases j with
  | object fields => exact ⟨fields, rfl⟩
  | null | bool b | number n | str s | array l => cases h

/-! ### The requests of `BaseAPI` -/

/-- The JSON of `BaseAPI.reserve`. -/
def reserveJson (amount : Json Number) (name : String) (kind args : Json Number) : Json Number :=
  .object [("amount", amount), ("name", .str name), ("kind", kind), ("args", args)]

/-- The JSON of `BaseAPI.end`. -/
def endJson (name : String) (serials : List String) : Json Number :=
  .object [("name", .str name), ("serials", serialsJson serials)]

/-- The JSON of `BaseAPI.endAll`. -/
def endAllJson (name : String) : Json Number := .object [("name", .str name)]

/-- The answer with the rows of a reserving transaction. -/
def rowsJson (rows : List ReservedRow) : Json Number :=
  .array (rows.map fun row => row.dict.json)

/-- **A request to reserve** answers with the rows of its transaction, or there is
none and its answer reads as `False`. -/
theorem handle_reserve (db : Database) (c : Circumstances) (amount : Json Number) (name : String)
    (kind args : Json Number) :
    (∃ n db' rows, amountOf amount = some n ∧
        db.makeReservations n name c.now c.res = some (db', rows) ∧
        reserve.handle db c (reserveJson amount name kind args) =
          ⟨db', [], ⟨200, some (rowsJson rows)⟩⟩) ∨
      ∃ response, Http.request (some response) = .bool false ∧
        reserve.handle db c (reserveJson amount name kind args) = ⟨db, [], response⟩ := by
  rw [reserveJson, handle_object]
  split
  · rename_i h
    obtain ⟨n, hn⟩ : ∃ n, amountOf amount = some n :=
      exists_amountOf (h ("amount", some .int) (by simp [params]) .int rfl)
    obtain ⟨k, rfl⟩ := exists_str (h ("kind", some .str) (by simp [params]) .str rfl)
    obtain ⟨fields, rfl⟩ := exists_object (h ("args", some .dict) (by simp [params]) .dict rfl)
    have hhandler : reserve.handler db c
        (valuesOf reserve.params [("amount", amount), ("name", .str name), ("kind", .str k),
          ("args", .object fields)]) = controlReserve db name n c := by
      show (amountOf amount).elim _ _ = _
      rw [hn]
      rfl
    rw [hhandler, controlReserve]
    rcases getReserved_select db n name c.now c.res c.reached with ⟨db', rows, hmade, h⟩ | h
    · refine Or.inl ⟨n, db', rows, hn, hmade, ?_⟩
      rw [h, rowsJson, Fetched.json, List.map_map]
      rfl
    · refine Or.inr ⟨_, ?_, by rw [h]⟩
      rfl
  · exact Or.inr ⟨_, rfl, rfl⟩

/-- Ending is gone through unless the database is not reached. -/
theorem controlEnd_eq (db : Database) (f : Database → Database × List EndedRow)
    (c : Circumstances) :
    controlEnd db f c =
      if c.reached then
        ⟨(f db).1, (f db).2.map EndedRow.serial, some (serialsJson ((f db).2.map EndedRow.serial))⟩
      else ⟨db, [], none⟩ := by
  have hserials : ∀ rows : List EndedRow,
      (rows.map EndedRow.dict).mapM RowDict.serial = some (rows.map EndedRow.serial) := by
    intro rows
    induction rows with
    | nil => rfl
    | cons row rows ih =>
      rw [List.map_cons, List.mapM_cons, ih]
      rfl
  rw [controlEnd, getEnded_select]
  cases c.reached with
  | false => rfl
  | true => simp only [if_true, hserials]

@[simp] theorem mapM_stringOf (serials : List String) :
    (serials.map Json.str).mapM stringOf = some serials := by
  induction serials with
  | nil => rfl
  | cons s serials ih =>
    rw [List.map_cons, List.mapM_cons, ih]
    rfl

/-- **A request to end some reservations.** -/
@[simp] theorem handle_endSome (db : Database) (c : Circumstances) (name : String)
    (serials : List String) :
    endSome.handle db c (endJson name serials) =
      let ended := db.endReservations name serials
      if c.reached then
        ⟨ended.1, ended.2.map EndedRow.serial,
          ⟨200, some (serialsJson (ended.2.map EndedRow.serial))⟩⟩
      else ⟨db, [], ⟨500, none⟩⟩ := by
  have haccepts : endSome.Accepts [("name", .str name), ("serials", serialsJson serials)] := by
    intro p hp c hc
    rcases List.mem_cons.mp hp with rfl | hp
    · obtain rfl := Option.some.inj hc
      rfl
    · obtain rfl := List.mem_singleton.mp hp
      obtain rfl := Option.some.inj hc
      rfl
  have hhandler : endSome.handler db c
      (valuesOf endSome.params [("name", .str name), ("serials", serialsJson serials)]) =
        controlEnd db (fun db => db.endReservations name serials) c := by
    show ((serials.map Json.str).mapM stringOf).elim _ _ = _
    rw [mapM_stringOf]
    rfl
  rw [endJson, handle_object, if_pos haccepts, hhandler, controlEnd_eq]
  cases c.reached with
  | false => rfl
  | true => rfl

/-- **A request to end all reservations.** -/
@[simp] theorem handle_endAll (db : Database) (c : Circumstances) (name : String) :
    endAll.handle db c (endAllJson name) =
      let ended := db.endAllReservations name
      if c.reached then
        ⟨ended.1, ended.2.map EndedRow.serial,
          ⟨200, some (serialsJson (ended.2.map EndedRow.serial))⟩⟩
      else ⟨db, [], ⟨500, none⟩⟩ := by
  have haccepts : endAll.Accepts [("name", .str name)] := by
    intro p hp c hc
    obtain rfl := List.mem_singleton.mp hp
    obtain rfl := Option.some.inj hc
    rfl
  have hhandler : endAll.handler db c (valuesOf endAll.params [("name", .str name)]) =
      controlEnd db (fun db => db.endAllReservations name) c := rfl
  rw [endAllJson, handle_object, if_pos haccepts, hhandler, controlEnd_eq]
  cases c.reached with
  | false => rfl
  | true => rfl

end Endpoint

end UsbipIce
