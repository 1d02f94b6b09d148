import UsbipIce.Client.Connections
import UsbipIce.Utils.Json
import UsbipIce.Worker.Requests

/-!
# A request, from the client to the worker

`BaseClient.requestWorker` packs a serial, an event and its data into a
dictionary, and `sendWorker` emits it as a string. At the other end `handle` of
`worker/app.py` takes the three out again, and goes by their truth values: a
packet one of whose values is false is a bad one.

An empty dictionary is false. So the two ends agree on all data but that
(`UsbipIce.Client.requestWorker_iff`), and a request without arguments, such as
`UsbipBaseClient.unbind` sends, is never handled.

`json.dumps` and `json.loads` are parameters.
-/

namespace UsbipIce

/-- What is emitted over the socket of a worker. -/
structure Emission where
  url : String
  event : String
  text : String
  deriving DecidableEq, Repr

/-- What becomes of a call of `sendWorker`. -/
inductive SendOutcome where
  /-- It returns `None`: the data cannot be serialised. -/
  | unserialised
  /-- It returns `False`: there is no socket. -/
  | refused
  /-- `emit` raises. -/
  | raised
  /-- It returns `True`. -/
  | sent (e : Emission)
  deriving DecidableEq, Repr

namespace Client

variable {ν : Type*}

/-- `EventServer.sendWorker`; `emits` says that `emit` does not raise. -/
def sendWorker (c : Client) (dumps : Json ν → Option String) (emits : Bool) (url event : String)
    (data : Json ν) : SendOutcome :=
  match dumps data with
  | none => .unserialised
  | some text =>
    match c.workerSockets.find? url with
    | none | some (_, false) => .refused
    | some (_, true) => if emits then .sent ⟨url, event, text⟩ else .raised

/-- The dictionary that `requestWorker` packs. -/
def requestPacket (serial event : String) (data : Json ν) : Json ν :=
  .object [("serial", .str serial), ("event", .str event), ("contents", data)]

/-- `BaseClient.requestWorker`. -/
def requestWorker (c : Client) (dumps : Json ν → Option String) (emits : Bool)
    (serial event : String) (data : Json ν) : SendOutcome :=
  match c.getConnectionInfo serial with
  | none => .refused
  | some info => c.sendWorker dumps emits info.url "request" (requestPacket serial event data)

/-- `UsbipBaseClient.unbind`. -/
def unbind (c : Client) (dumps : Json ν → Option String) (emits : Bool) (serial : String) :
    SendOutcome :=
  c.requestWorker dumps emits serial "unbind" (.object [])

/-- **A request that is sent** carries its packet to the worker of its serial. -/
theorem sent_of_requestWorker {c : Client} {dumps : Json ν → Option String} {emits : Bool}
    {serial event : String} {data : Json ν} {e : Emission}
    (h : c.requestWorker dumps emits serial event data = .sent e) :
    ∃ info, c.getConnectionInfo serial = some info ∧ e.url = info.url ∧ e.event = "request" ∧
      dumps (requestPacket serial event data) = some e.text := by
  rw [requestWorker] at h
  split at h
  · cases h
  · rename_i info hinfo
    rw [sendWorker] at h
    split at h
    · cases h
    · rename_i text htext
      split at h
      · cases h
      · cases h
      · split at h
        · obtain rfl := SendOutcome.sent.inj h
          exact ⟨info, hinfo, rfl, rfl, htext⟩
        · cases h

end Client

namespace Worker

variable {ν : Type*}

/-- A JSON value, as `handle` looks at it. -/
def value : Json ν → Value (Json ν)
  | .array l => .list l
  | v => .other v

/-- What `json.loads` makes of a text. -/
def received (loads : String → Option (Json ν)) (text : String) : Data (Json ν) :=
  match loads text with
  | none => .unparsable
  | some (.object fields) =>
    .packet ((Json.get fields "serial").map value) ((Json.get fields "event").map value)
      ((Json.get fields "contents").map value)
  | some _ => .noDict

/-- What a request with some data arrives as. -/
theorem received_requestPacket {loads : String → Option (Json ν)} {text serial event : String}
    {data : Json ν} (h : loads text = some (Client.requestPacket serial event data)) :
    received loads text =
      .packet (some (value (.str serial))) (some (value (.str event))) (some (value data)) := by
  rw [received, h]
  rfl

/-- An emission arrives on a socket whose client is known: it goes to the handler
registered for its event. -/
def onEmission [Zero ν] [DecidableEq ν] (loads : String → Option (Json ν)) (clientId : String)
    (e : Emission) : Handled (Json ν) :=
  if e.event = "request" then handle Json.truthy (some clientId) (received loads e.text)
  else .ignored

variable [Zero ν] [DecidableEq ν]

theorem present_value_of_truthy {v : Json ν} (h : v.truthy = true) :
    present Json.truthy (some (value v)) = some (value v) := by
  refine Option.filter_some_pos ?_
  cases v <;> exact h

theorem present_value_of_falsy {v : Json ν} (h : v.truthy = false) :
    present Json.truthy (some (value v)) = none := by
  refine Option.filter_some_neg ?_
  cases v <;> exact Bool.not_eq_true _ ▸ h

end Worker

namespace Client

open Worker

variable {ν : Type*} [Zero ν] [DecidableEq ν]

/-- **When the two ends agree.** A request that is sent and delivered is handled, by
one call with its serial, event and data, if and only if its data is not
empty. -/
theorem requestWorker_iff {dumps : Json ν → Option String} {loads : String → Option (Json ν)}
    (hloads : ∀ v text, dumps v = some text → loads text = some v) {c : Client} {emits : Bool}
    {serial event : String} (hserial : serial ≠ "") (hevent : event ≠ "")
    {data : List (String × Json ν)} {e : Emission}
    (hsent : c.requestWorker dumps emits serial event (.object data) = .sent e)
    (clientId : String) :
    onEmission loads clientId e =
        .direct ⟨.str serial, .other (.str event), .other (.object data)⟩ ↔ data ≠ [] := by
  obtain ⟨info, -, -, hname, htext⟩ := sent_of_requestWorker hsent
  have hs := present_value_of_truthy (v := (.str serial : Json ν)) (decide_eq_true hserial)
  have he := present_value_of_truthy (v := (.str event : Json ν)) (decide_eq_true hevent)
  rw [onEmission, if_pos hname, Worker.received_requestPacket (hloads _ _ htext), handle, hs, he]
  by_cases hdata : data = []
  · rw [present_value_of_falsy (by rw [hdata]; rfl)]
    have hignored : (Handled.ignored : Handled (Json ν)) ≠
        .direct ⟨.str serial, .other (.str event), .other (.object data)⟩ := by simp
    exact iff_of_false hignored fun h => h hdata
  · rw [present_value_of_truthy (Json.truthy_object.mpr hdata)]
    exact iff_of_true rfl hdata

/-! ### A request without arguments -/

/-- A client with one serial and a socket to its worker. -/
def oneWorker : Client := start.reserve [⟨"A", "10.0.0.3", 8081⟩]

/-- `json.dumps`, on two requests. -/
def dumpsRequest : Json ℕ → Option String
  | .object [("serial", .str "A"), ("event", .str "unbind"), ("contents", .object [])] =>
    some "\x7b\"serial\": \"A\", \"event\": \"unbind\", \"contents\": \x7b\x7d\x7d"
  | .object [("serial", .str "A"), ("event", .str "evaluate"),
      ("contents", .object [("files", .null)])] =>
    some "\x7b\"serial\": \"A\", \"event\": \"evaluate\", \"contents\": \x7b\"files\": null\x7d\x7d"
  | _ => none

/-- `json.loads`, on the two texts. -/
def loadsRequest (text : String) : Option (Json ℕ) :=
  if text = "\x7b\"serial\": \"A\", \"event\": \"unbind\", \"contents\": \x7b\x7d\x7d" then
    some (requestPacket "A" "unbind" (.object []))
  else if text =
      "\x7b\"serial\": \"A\", \"event\": \"evaluate\", \"contents\": \x7b\"files\": null\x7d\x7d" then
    some (requestPacket "A" "evaluate" (.object [("files", .null)]))
  else none

theorem loads_dumpsRequest (v : Json ℕ) (text : String) (h : dumpsRequest v = some text) :
    loadsRequest text = some v := by
  rw [dumpsRequest.eq_def] at h
  split at h
  · obtain rfl := Option.some.inj h
    rfl
  · obtain rfl := Option.some.inj h
    rfl
  · cases h

/-- A request with arguments is handled. -/
theorem evaluate_handled :
    ∃ e, oneWorker.requestWorker dumpsRequest true "A" "evaluate" (.object [("files", .null)]) =
        .sent e ∧ onEmission loadsRequest "client" e =
          .direct ⟨.str "A", .other (.str "evaluate"), .other (.object [("files", .null)])⟩ := by
  have hsent : oneWorker.requestWorker dumpsRequest true "A" "evaluate"
      (.object [("files", .null)]) = .sent ⟨"http://10.0.0.3:8081", "request",
        "\x7b\"serial\": \"A\", \"event\": \"evaluate\", \"contents\": \x7b\"files\": null\x7d\x7d"⟩ := by
    decide
  exact ⟨_, hsent, (requestWorker_iff loads_dumpsRequest (by decide) (by decide) hsent "client").mpr
    (List.cons_ne_nil _ _)⟩

/-- **`unbind` is sent, and ignored.** -/
theorem unbind_ignored :
    ∃ e, oneWorker.unbind dumpsRequest true "A" = .sent e ∧
      onEmission loadsRequest "client" e ≠
        .direct ⟨.str "A", .other (.str "unbind"), .other (.object [])⟩ := by
  have hsent : oneWorker.unbind dumpsRequest true "A" = .sent ⟨"http://10.0.0.3:8081", "request",
      "\x7b\"serial\": \"A\", \"event\": \"unbind\", \"contents\": \x7b\x7d\x7d"⟩ := by decide
  refine ⟨_, hsent, ?_⟩
  rw [onEmission, if_pos rfl, Worker.received_requestPacket rfl]
  exact nofun

end Client

end UsbipIce
