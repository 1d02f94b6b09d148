import Mathlib.Data.List.Induction
import UsbipIce.Client.Extender
import UsbipIce.EventSender.Recipients

/-!
# What makes a client forget a device

A client has a socket at control and one at each of its workers, and each of these
servers has an event sender of its own. What arrives on a socket is a text;
`event` of `EventServer` reads it and gives the handlers an `Event`, and
`handleReservationEnd` and `handleFailure` remove the device it names from
`connection_info`.

Whatever the servers send, to whomever and however often connections, sessions and
batches come and go, a client forgets a device by an event only if one of the
servers has addressed an end or a failure of this very device to it
(`UsbipIce.Network.tracked_of_not_told`): by name, or since it held the device when
the event was sent.

`json.dumps` and `json.loads` are parameters.
-/

namespace UsbipIce

open Lib

/-! ### Reading an event -/

variable {ν : Type*}

/-- What `event` of an `EventServer` makes of the data it gets. -/
inductive Incoming (ν : Type*) where
  /-- It logs that the data cannot be parsed. -/
  | unparsable
  /-- It logs that the contents are bad. -/
  | bad
  /-- `get` raises: what should be a dictionary is none. -/
  | raised
  | handled (e : Event ν)

namespace Incoming

/-- `event` of an `EventServer`, as far as `handleEvent`. -/
def ofData [Zero ν] [DecidableEq ν] (loads : String → Option (Json ν)) (data : String) :
    Incoming ν :=
  match loads data with
  | none => .unparsable
  | some (.object msg) =>
    match (Json.get msg "contents").filter Json.truthy with
    | none => .bad
    | some (.object contents) =>
      match (Json.get msg "serial").filter Json.truthy,
        (Json.get contents "event").filter Json.truthy with
      | some serial, some event => .handled ⟨serial, event, contents.foldl Table.put ∅⟩
      | none, _ | some _, none => .bad
    | some _ => .raised
  | some _ => .raised

end Incoming

/-- The dictionary of a package. -/
def Package.json (p : Package (Json ν)) : Json ν :=
  .object [("serial", .str p.serial), ("contents", .object p.contents.rows)]

/-- What `get` finds in a table. -/
@[simp] theorem get_rows (t : Table (String × Json ν) Prod.fst) (key : String) :
    Json.get t.rows key = (t.find? key).map Prod.snd := by
  rw [Json.get, Table.find?]
  induction t.rows with
  | nil => rfl
  | cons r rows ih =>
    rw [List.lookup_cons, List.find?_cons]
    by_cases hkey : r.1 = key
    · simp [hkey]
    · have hne : (key == r.1) = false := beq_eq_false_iff_ne.mpr (Ne.symm hkey)
      simp only [hne, decide_eq_false hkey]
      exact ih

/-- **What comes of a package**: an event with its contents, if any. -/
theorem event_of_package [Zero ν] [DecidableEq ν] {loads : String → Option (Json ν)}
    {text : String} {p : Package (Json ν)} (hload : loads text = some p.json) {e : Event ν}
    (he : Incoming.ofData loads text = .handled e) :
    (p.contents.find? "event").map Prod.snd = some e.event ∧
      e.contents = p.contents := by
  have hcontents : Json.get [("serial", .str p.serial), ("contents", .object p.contents.rows)]
      "contents" = some (.object p.contents.rows) := rfl
  rw [Incoming.ofData, hload, Package.json] at he
  dsimp only at he
  rw [hcontents, Option.filter_some] at he
  split at he
  · cases he
  · rename_i contents hobject
    obtain rfl : p.contents.rows = contents := by
      split at hobject
      · exact Json.object.inj (Option.some.inj hobject)
      · cases hobject
    split at he
    · rename_i serial event _ hevent
      obtain rfl := Incoming.handled.inj he
      rw [get_rows] at hevent
      exact ⟨(Option.filter_eq_some_iff.mp hevent).1, Table.foldl_put_rows p.contents⟩
    · cases he
    · cases he
  · cases he

/-! ### Announcements -/

/-- The event ends the device for its client. -/
def Event.Ends (e : Event ν) (serial : String) : Prop :=
  (e.event = .str "reservation end" ∨ e.event = .str "failure") ∧
    e.arg "serial" = some (.str serial)

/-- The contents are those of such an event. -/
def announcesEnd (contents : Table (String × Json ν) Prod.fst) : Bool :=
  match (contents.find? "event").map Prod.snd with
  | some (.str event) => decide (event = "reservation end" ∨ event = "failure")
  | _ => false

/-- **What a package announces**: an event that ends a device is sent as one, about
this device. -/
theorem announcesEnd_of_ends [Zero ν] [DecidableEq ν] {loads : String → Option (Json ν)}
    {text serial : String} {contents : Table (String × Json ν) Prod.fst}
    (hload : loads text = some (packageContents Json.str serial contents).json) {e : Event ν}
    (he : Incoming.ofData loads text = .handled e) {A : String} (hends : e.Ends A) :
    serial = A ∧ announcesEnd contents = true := by
  obtain ⟨hevent, hcontents⟩ := event_of_package hload he
  obtain ⟨hname, hserial⟩ := hends
  constructor
  · -- `__packageContents` has put the serial into the contents
    have hput : (packageContents Json.str serial contents).contents.find? "serial" =
        some ("serial", .str serial) :=
      Table.find?_eq_some.mpr ⟨Table.mem_put.mpr (Or.inl rfl), rfl⟩
    have hfound : e.arg "serial" = some (.str serial) := by
      rw [Event.arg, hcontents, hput]
      rfl
    exact Json.str.inj (Option.some.inj (hfound.symm.trans hserial))
  · obtain ⟨r, hr, hsnd⟩ := Option.map_eq_some_iff.mp hevent
    obtain ⟨hmem, hkey⟩ := Table.find?_eq_some.mp hr
    have hold : r ∈ contents := by
      rcases Table.mem_put.mp hmem with rfl | ⟨hold, -⟩
      · exact absurd (show "serial" = "event" from hkey) (by decide)
      · exact hold
    rw [announcesEnd, Table.find?_eq_some.mpr ⟨hold, hkey⟩, Option.map_some, hsnd]
    rcases hname with hname | hname
    · rw [hname]
      rfl
    · rw [hname]
      rfl

/-! ### What a client does to its devices -/

/-- The operation removes the device. -/
def Client.Op.Drops (serial : String) : Client.Op → Prop
  | .removeSerial serial' | .handleReservationEnd serial' | .handleFailure serial' =>
    serial' = serial
  | .endSome (some serials) | .endAll (some serials) => serial ∈ serials
  | .reserve _ | .endSome none | .endAll none => False

instance (serial : String) : (op : Client.Op) → Decidable (op.Drops serial)
  | .removeSerial serial' | .handleReservationEnd serial' | .handleFailure serial' =>
    inferInstanceAs (Decidable (serial' = serial))
  | .endSome (some serials) | .endAll (some serials) =>
    inferInstanceAs (Decidable (serial ∈ serials))
  | .reserve _ | .endSome none | .endAll none => isFalse id

namespace Client

variable {c : Client} {A : String}

/-- Other serials are removed. -/
theorem mem_keys_removeSerial {serial : String} (h : A ∈ c.connectionInfo.keys)
    (hne : serial ≠ A) : A ∈ (c.removeSerial serial).connectionInfo.keys :=
  keys_removeSerial.mpr ⟨h, hne.symm⟩

theorem mem_keys_removeAll {serials : List String} (h : A ∈ c.connectionInfo.keys)
    (hA : A ∉ serials) : A ∈ (c.removeAll serials).connectionInfo.keys := by
  induction serials generalizing c with
  | nil => exact h
  | cons serial serials ih =>
    obtain ⟨hne, hA⟩ := not_or.mp (mt List.mem_cons.mpr hA)
    exact ih (mem_keys_removeSerial h (Ne.symm hne)) hA

/-- What is reserved comes in addition. -/
theorem mem_keys_reserve {rows : List Database.ReservedRow} (h : A ∈ c.connectionInfo.keys) :
    A ∈ (c.reserve rows).connectionInfo.keys := by
  rw [Client.reserve, (connectWorkers_spec _ _).1]
  induction rows generalizing c with
  | nil => exact h
  | cons row rows ih =>
    refine ih (c := c.addRow row) ?_
    obtain ⟨p, hp, rfl⟩ := Table.mem_keys.mp h
    by_cases hrow : p.1 = row.serial
    · rw [hrow]
      exact Table.key_mem_keys (mem_addRow.mpr (Or.inl rfl))
    · exact Table.key_mem_keys (mem_addRow.mpr (Or.inr ⟨hp, hrow⟩))

/-- **An operation that does not drop a device keeps it.** -/
theorem mem_keys_step {op : Op} (hop : ¬op.Drops A) (h : A ∈ c.connectionInfo.keys) :
    A ∈ (c.step op).connectionInfo.keys := by
  cases op with
  | reserve answer =>
    cases answer with
    | none => exact h
    | some rows => exact mem_keys_reserve h
  | removeSerial serial | handleReservationEnd serial | handleFailure serial =>
    exact mem_keys_removeSerial h hop
  | endSome answer | endAll answer =>
    cases answer with
    | none => exact h
    | some serials => exact mem_keys_removeAll h hop

end Client

namespace Listener

variable {s : Listener ν} {e : Event ν} {A : String}

/-- The methods for an end and for a failure remove the serial that the event names. -/
theorem handleBy_removes {event : String} (he : e.event = .str event)
    (h : event = "reservation end" ∨ event = "failure") :
    s.handleBy rounds .baseClientEventHandler e = some (s.take
      ((e.arg "serial").elim .false fun v => .calls .removesSerial [v])) := by
  rcases h with rfl | rfl
  · have hreg : handlerClasses.registration "reservation end" .baseClientEventHandler =
        some (.baseClientEventHandler, ⟨"handleReservationEnd", ["serial"]⟩) := by decide
    exact handleBy_of_registration le_rounds he (by decide) hreg rfl (by decide)
  · have hreg : handlerClasses.registration "failure" .baseClientEventHandler =
        some (.baseClientEventHandler, ⟨"handleFailure", ["serial"]⟩) := by decide
    exact handleBy_of_registration le_rounds he (by decide) hreg rfl (by decide)

theorem handleBy_initialized (he : e.event = .str "initialized") :
    s.handleBy rounds .baseClientEventHandler e = some (s.take
      ((e.arg "serial").elim .false fun v => .calls .handleInitialization [v])) := by
  have hreg : handlerClasses.registration "initialized" .baseClientEventHandler =
      some (.baseClientEventHandler, ⟨"handleInitialization", ["serial"]⟩) := by decide
  exact handleBy_of_registration le_rounds he (by decide) hreg rfl (by decide)

/-- Another serial is removed, or none. -/
theorem mem_keys_removes (h : A ∈ s.client.connectionInfo.keys) {arg : Option (Json ν)}
    (harg : arg ≠ some (.str A)) :
    A ∈ (s.take (arg.elim .false fun v =>
      .calls .removesSerial [v])).listener.client.connectionInfo.keys := by
  cases arg with
  | none => exact h
  | some v =>
    cases v with
    | str serial => exact Client.mem_keys_removeSerial h fun heq => harg (heq ▸ rfl)
    | null | bool b | number n | array l | object fields => exact h

/-- **The handler of the client** removes a device only on an event that ends it. -/
theorem mem_keys_base (h : A ∈ s.client.connectionInfo.keys) (hends : ¬e.Ends A)
    {d : Delivery ν} (hd : s.handle rounds .baseClientEventHandler e = some d) :
    A ∈ d.listener.client.connectionInfo.keys := by
  rw [handle, if_neg (by decide)] at hd
  cases he : e.event with
  | null | bool b | number n =>
    rw [handleBy, he] at hd
    exact Option.some.inj hd ▸ h
  | array l | object fields =>
    rw [handleBy, he] at hd
    exact Option.some.inj hd ▸ h
  | str event =>
    by_cases hremoves : event = "reservation end" ∨ event = "failure"
    · rw [handleBy_removes he hremoves] at hd
      refine Option.some.inj hd ▸ mem_keys_removes h fun harg => hends ⟨?_, harg⟩
      rw [he]
      rcases hremoves with rfl | rfl
      · exact Or.inl rfl
      · exact Or.inr rfl
    by_cases hinit : event = "initialized"
    · -- `handleInitialization` is about `awaiting_serials` only
      rw [handleBy_initialized (hinit ▸ he)] at hd
      rw [← Option.some.inj hd]
      cases e.arg "serial" with
      | none => exact h
      | some v => exact h
    · have hnot : event ∉ ["reservation end", "failure", "initialized"] := by
        rw [not_or] at hremoves
        simp [hremoves, hinit]
      rw [handleBy_of_not_mem (c := .baseClientEventHandler) le_rounds he (by decide) hnot] at hd
      exact Option.some.inj hd ▸ h

/-- The handler of the results removes no device. -/
theorem client_result {d : Delivery ν} (hd : s.handle rounds .resultHandler e = some d) :
    d.listener.client = s.client := by
  rw [handle, if_neg (by decide)] at hd
  cases he : e.event with
  | null | bool b | number n =>
    rw [handleBy, he] at hd
    rw [← Option.some.inj hd]
  | array l | object fields =>
    rw [handleBy, he] at hd
    rw [← Option.some.inj hd]
  | str event =>
    by_cases hname : event = "results"
    · subst hname
      rw [handleBy_results le_rounds he] at hd
      rw [← Option.some.inj hd]
      cases e.arg "serial" with
      | none => rfl
      | some serial =>
        cases e.arg "results" with
        | none => rfl
        | some results =>
          show (s.addResult serial).listener.client = s.client
          cases serial with
          | str x =>
            rw [addResult]
            split <;> rfl
          | null | bool b | number n | array l | object fields => rfl
    · rw [handleBy_of_not_mem (c := .resultHandler) le_rounds he (by decide)
        fun h => hname (List.mem_singleton.mp h)] at hd
      rw [← Option.some.inj hd]

/-- **An event that does not end a device keeps it.** -/
theorem mem_keys_event {logEvents : Bool} {t : Listener ν}
    (h : A ∈ s.client.connectionInfo.keys) (hends : ¬e.Ends A)
    (hstep : s.step logEvents (.event e) = some t) : A ∈ t.client.connectionInfo.keys := by
  obtain ⟨d, hd, rfl⟩ := Option.map_eq_some_iff.mp hstep
  rw [eventHandlers, List.cons_append, deliver] at hd
  obtain ⟨d', hd', hrest⟩ := Option.bind_eq_some_iff.mp hd
  have hbase := mem_keys_base h hends hd'
  split at hrest
  · exact Option.some.inj hrest ▸ hbase
  · rw [deliver_rest] at hrest
    rw [client_result hrest]
    exact hbase

/-- The input is an event. -/
def Input.isEvent : Input ν → Bool
  | .event _ => true
  | .extend _ | .operate _ | .await _ => false

/-- The input removes the device on the client's own account. -/
def Input.Drops (serial : String) : Input ν → Prop
  | .operate op => op.Drops serial
  | .event _ | .extend _ | .await _ => False

instance (serial : String) : (i : Input ν) → Decidable (i.Drops serial)
  | .operate op => inferInstanceAs (Decidable (op.Drops serial))
  | .event _ | .extend _ | .await _ => isFalse id

/-- What the client does on its own keeps a device, unless it drops it. -/
theorem mem_keys_own {logEvents : Bool} {t : Listener ν} {i : Input ν}
    (h : A ∈ s.client.connectionInfo.keys) (hi : ¬i.Drops A) (hevent : i.isEvent = false)
    (hstep : s.step logEvents i = some t) : A ∈ t.client.connectionInfo.keys := by
  cases i with
  | event e => cases hevent
  | extend serials | await serials => exact Option.some.inj hstep ▸ h
  | operate op => exact Option.some.inj hstep ▸ Client.mem_keys_step hi h

end Listener

/-! ### Servers and a client -/

/-- How events get from servers `V`, with sockets `S`, to a client. -/
structure Channel (V S ν : Type*) where
  /-- `json.dumps`. -/
  dumps : Json ν → Option String
  /-- `json.loads`. -/
  loads : String → Option (Json ν)
  loads_dumps : ∀ v text, dumps v = some text → loads text = some v
  /-- Whose a socket is. -/
  client : V → S → String
  /-- The id of the client. -/
  name : String
  logEvents : Bool

/-- The event senders of the servers, which share the database, and the client. -/
structure Network (V S ν : Type*) where
  notifiers : V → Notifier S
  listener : Listener ν

/-- What happens next. -/
inductive NetworkInput (V S ν : Type*) where
  /-- Anyone changes the database. -/
  | commit (database : Database)
  /-- Something happens at a server. -/
  | server (v : V) (i : NotifierInput (Json ν) S)
  /-- What a server has emitted to a socket of the client arrives. -/
  | arrive (v : V) (text : String) (sid : S)
  /-- The client does something on its own. -/
  | own (i : Listener.Input ν)

/-- The input is a change of the database. -/
def NotifierInput.isCommit {V S : Type*} : NotifierInput V S → Bool
  | .commit _ => true
  | .sendSerialJson .. | .sendClientJson .. | .sender _ => false

/-- **A server announces the end of a device to a client**: by name, or as its
holder. -/
def Notifier.Tells {S : Type*} (s : Notifier S) (serial name : String) :
    NotifierInput (Json ν) S → Prop
  | .sendSerialJson serial' contents _ =>
    serial' = serial ∧ s.database.holder serial' = some name ∧ announcesEnd contents = true
  | .sendClientJson serial' clientId contents =>
    serial' = serial ∧ clientId = name ∧ announcesEnd contents = true
  | .commit _ | .sender _ => False

instance {S : Type*} (s : Notifier S) (serial name : String) :
    (i : NotifierInput (Json ν) S) → Decidable (s.Tells serial name i)
  | .sendSerialJson serial' contents _ => inferInstanceAs (Decidable (serial' = serial ∧
      s.database.holder serial' = some name ∧ announcesEnd contents = true))
  | .sendClientJson serial' clientId contents => inferInstanceAs (Decidable (serial' = serial ∧
      clientId = name ∧ announcesEnd contents = true))
  | .commit _ | .sender _ => isFalse id

namespace Network

variable {V S : Type*}

/-- `json.dumps` of a package. -/
def dumpsPackage (c : Channel V S ν) (p : Package (Json ν)) : Option String := c.dumps p.json

/-- Nothing has been sent. -/
def start (database : Database) (listener : Listener ν) : Network V S ν :=
  ⟨fun _ => Notifier.start database, listener⟩

/-- A server announces the end of the device to the client. -/
def Tells (c : Channel V S ν) (serial : String) (s : Network V S ν) : NetworkInput V S ν → Prop
  | .server v i => (s.notifiers v).Tells serial c.name i
  | .commit _ | .arrive .. | .own _ => False

instance (c : Channel V S ν) (serial : String) (s : Network V S ν) :
    (i : NetworkInput V S ν) → Decidable (s.Tells c serial i)
  | .server v i => inferInstanceAs (Decidable ((s.notifiers v).Tells serial c.name i))
  | .commit _ | .arrive .. | .own _ => isFalse id

/-- What the client does with what has arrived. -/
def receive (c : Channel V S ν) (s : Network V S ν) : Incoming ν → Option (Network V S ν)
  | .handled e => (s.listener.step c.logEvents (.event e)).map fun listener =>
    { s with listener := listener }
  | .unparsable | .bad | .raised => some s

theorem notifiers_receive {c : Channel V S ν} {s t : Network V S ν} {x : Incoming ν}
    (h : s.receive c x = some t) : t.notifiers = s.notifiers := by
  cases x with
  | unparsable | bad | raised => rw [← Option.some.inj h]
  | handled e =>
    obtain ⟨listener, -, rfl⟩ := Option.map_eq_some_iff.mp h
    rfl

variable [DecidableEq V] [DecidableEq S] [Zero ν] [DecidableEq ν] (c : Channel V S ν)

/-- One step. -/
def step (s : Network V S ν) : NetworkInput V S ν → Option (Network V S ν)
  | .commit database =>
    some { s with notifiers := fun v => { s.notifiers v with database := database } }
  | .server v i =>
    if i.isCommit then none
    else ((s.notifiers v).step (dumpsPackage c) Json.str i).map fun n =>
      { s with notifiers := Function.update s.notifiers v n }
  | .arrive v text sid =>
    -- it may arrive late, after others, or more than once
    if (text, sid) ∈ (s.notifiers v).sender.emits ∧ c.client v sid = c.name then
      s.receive c (Incoming.ofData c.loads text)
    else none
  | .own i =>
    if i.isEvent then none
    else (s.listener.step c.logEvents i).map fun listener => { s with listener := listener }

/-- Servers and a client as a machine. -/
def machine : Machine (Network V S ν) (NetworkInput V S ν) := ⟨step c⟩

/-- What happens at one server. -/
def seenAt (v : V) : NetworkInput V S ν → Option (NotifierInput (Json ν) S)
  | .commit database => some (.commit database)
  | .server v' i => if v' = v then some i else none
  | .arrive .. | .own _ => none

/-- **One server, as it takes part.** -/
def refinement (v : V) :
    Refinement (machine c) (Notifier.machine (S := S) (dumpsPackage c) Json.str) where
  abs := fun s => s.notifiers v
  input := fun _ i => seenAt v i
  run_input := by
    intro s i t h
    cases i with
    | commit database =>
      obtain rfl := Option.some.inj h
      rfl
    | server v' i =>
      obtain ⟨n, hn, rfl⟩ := Option.map_eq_some_iff.mp (Option.ite_none_left_eq_some.mp h).2
      by_cases hv : v' = v
      · subst hv
        rw [seenAt, if_pos rfl, Option.toList_some, Machine.run_singleton]
        exact hn.trans (congrArg some (Function.update_self v' n s.notifiers).symm)
      · rw [seenAt, if_neg hv]
        exact congrArg some (Function.update_of_ne (Ne.symm hv) n s.notifiers).symm
    | arrive v' text sid =>
      exact congrArg (some <| · v) (notifiers_receive (Option.ite_none_right_eq_some.mp h).2).symm
    | own i =>
      obtain ⟨listener, -, rfl⟩ := Option.map_eq_some_iff.mp (Option.ite_none_left_eq_some.mp h).2
      rfl

variable {c} {database : Database} {listener : Listener ν} {s t : Network V S ν} {A : String}

omit [DecidableEq V] [DecidableEq S] in
/-- What is addressed to the client and announces no end of the device, does not end
it. -/
theorem not_ends_of_addressed {n : Notifier S} {i : NotifierInput (Json ν) S} {text : String}
    (h : n.addressed (dumpsPackage c) Json.str i = some (c.name, text))
    (hi : ¬n.Tells A c.name i) {e : Event ν} (he : Incoming.ofData c.loads text = .handled e) :
    ¬e.Ends A := by
  intro hends
  cases i with
  | commit database => cases h
  | sender i => cases h
  | sendSerialJson serial contents reached =>
    obtain ⟨name, hholder, hdumped⟩ := Option.bind_eq_some_iff.mp h
    obtain ⟨m, hm, heq⟩ := Option.map_eq_some_iff.mp hdumped
    obtain ⟨rfl, rfl⟩ := Prod.mk.inj heq
    obtain ⟨hserial, hannounces⟩ := announcesEnd_of_ends (c.loads_dumps _ _ hm) he hends
    exact hi ⟨hserial, hholder, hannounces⟩
  | sendClientJson serial clientId contents =>
    obtain ⟨m, hm, heq⟩ := Option.map_eq_some_iff.mp h
    obtain ⟨rfl, rfl⟩ := Prod.mk.inj heq
    obtain ⟨hserial, hannounces⟩ := announcesEnd_of_ends (c.loads_dumps _ _ hm) he hends
    exact hi ⟨hserial, rfl, hannounces⟩

/-- Nothing that one server addresses to the client ends the device, where no server
announces this. -/
theorem meets_addressed {is : List (NetworkInput V S ν)}
    (hquiet : (machine c).Meets (fun s i => ¬s.Tells c A i) s is) (v : V) :
    (Notifier.machine (dumpsPackage c) Json.str).Meets
      (fun n i => ∀ p ∈ ((n.addressed (dumpsPackage c) Json.str i).toList :
        Multiset (String × String)), p.1 = c.name →
          ∀ e, Incoming.ofData c.loads p.2 = .handled e → ¬e.Ends A)
      (s.notifiers v) ((refinement c v).trace s is) := by
  refine (Refinement.meets_trace (R := refinement c v)).mpr (hquiet.mono ?_)
  intro u i hi _ j hj p hp hname e he
  have haddressed := Option.mem_toList.mp (Multiset.mem_coe.mp hp)
  cases i with
  | commit database =>
    rw [← Option.some.inj hj] at haddressed
    cases haddressed
  | server v' i =>
    obtain ⟨rfl, heq⟩ := Option.ite_none_right_eq_some.mp hj
    obtain rfl := Option.some.inj heq
    refine not_ends_of_addressed (haddressed.trans ?_) hi he
    rw [← hname]
  | arrive v' text sid | own i => cases hj

/-- The sockets that connect at one server. -/
theorem client_of_mem_trace {is : List (NetworkInput V S ν)}
    (hclient : ∀ v sid name, NetworkInput.server v (.sender (.connect sid (some name))) ∈ is →
      c.client v sid = name)
    {v : V} {sid : S} {name : String}
    (hmem : NotifierInput.sender (.connect sid (some name)) ∈ (refinement c v).trace s is) :
    c.client v sid = name := by
  refine Refinement.forall_mem_trace (P := fun j => j = .sender (.connect sid (some name)) →
    c.client v sid = name) (fun i hi _ j hj hconnect => ?_) _ hmem rfl
  cases i with
  | commit database | arrive v' text sid | own i =>
    rw [hconnect] at hj
    cases hj
  | server v' i =>
    obtain ⟨rfl, heq⟩ := Option.ite_none_right_eq_some.mp hj
    obtain rfl := Option.some.inj heq
    exact hclient v' sid name (hconnect ▸ hi)

/-- **What has been emitted to the client** does not end the device, where no server
has announced this. -/
theorem not_ends_of_emitted {is : List (NetworkInput V S ν)}
    (hclient : ∀ v sid name, NetworkInput.server v (.sender (.connect sid (some name))) ∈ is →
      c.client v sid = name)
    (h : (machine c).run (start database listener) is = some s)
    (hquiet : (machine c).Meets (fun s i => ¬s.Tells c A i) (start database listener) is)
    {v : V} {text : String} {sid : S} (hemitted : (text, sid) ∈ (s.notifiers v).sender.emits)
    (hsid : c.client v sid = c.name) {e : Event ν}
    (he : Incoming.ofData c.loads text = .handled e) : ¬e.Ends A := by
  have hrun : (Notifier.machine (dumpsPackage c) Json.str).run (Notifier.start database)
      ((refinement c v).trace (start database listener) is) = some (s.notifiers v) :=
    Refinement.run_trace (R := refinement c v) h
  have hsent := EventSender.emits_le_sends
    (Notifier.fits_trace fun sid name hmem => client_of_mem_trace hclient hmem)
    (Refinement.run_trace (R := Notifier.refinement (dumpsPackage c) Json.str) hrun)
  have haddressed := Multiset.mem_of_le (hsent.trans (Notifier.sends_trace hrun))
    (Multiset.mem_map.mpr ⟨_, hemitted, rfl⟩)
  exact Machine.forall_mem_total (meets_addressed hquiet v) _ haddressed hsid e he

/-- **A client forgets a device by an event only if it was told**: in every run in
which no server ever announces an end or a failure of the device to the client, a
device that is in `connection_info` stays there, unless the client removes it
itself. -/
theorem tracked_of_not_told {is js : List (NetworkInput V S ν)}
    (hclient : ∀ v sid name,
      NetworkInput.server v (.sender (.connect sid (some name))) ∈ is ++ js →
        c.client v sid = name)
    (hs : (machine c).run (start database listener) is = some s)
    (hA : A ∈ s.listener.client.connectionInfo.keys) (ht : (machine c).run s js = some t)
    (hquiet : (machine c).Meets (fun u i => ¬u.Tells c A i) (start database listener) (is ++ js))
    (hkeeps : ∀ i, NetworkInput.own i ∈ js → ¬i.Drops A) :
    A ∈ t.listener.client.connectionInfo.keys := by
  -- what arrives last may have been sent at any time before, also within `is`
  induction js using List.reverseRecOn generalizing t with
  | nil => exact Option.some.inj ht ▸ hA
  | append_singleton js i ih =>
    rw [← List.append_assoc] at hclient hquiet
    rw [Machine.run_append] at ht
    obtain ⟨u, hu, hstep⟩ := Option.bind_eq_some_iff.mp ht
    rw [Machine.run_singleton] at hstep
    have hbefore := (Machine.meets_append.mp hquiet).1
    have hsockets := fun v sid name hmem =>
      hclient v sid name (List.mem_append_left [i] hmem)
    have hu' : A ∈ u.listener.client.connectionInfo.keys :=
      ih hsockets hu hbefore fun i hi => hkeeps i (List.mem_append_left _ hi)
    have hrun : (machine c).run (start database listener) (is ++ js) = some u := by
      simpa [hs] using hu
    cases i with
    | commit database =>
      obtain rfl := Option.some.inj hstep
      exact hu'
    | server v i =>
      obtain ⟨n, -, rfl⟩ := Option.map_eq_some_iff.mp (Option.ite_none_left_eq_some.mp hstep).2
      exact hu'
    | arrive v text sid =>
      obtain ⟨⟨hemitted, hsid⟩, hreceive⟩ := Option.ite_none_right_eq_some.mp hstep
      cases hdata : Incoming.ofData c.loads text with
      | unparsable | bad | raised =>
        rw [hdata] at hreceive
        exact Option.some.inj hreceive ▸ hu'
      | handled e =>
        rw [hdata] at hreceive
        obtain ⟨listener', hlistener, rfl⟩ := Option.map_eq_some_iff.mp hreceive
        exact Listener.mem_keys_event hu'
          (not_ends_of_emitted hsockets hrun hbefore hemitted hsid hdata) hlistener
    | own i =>
      obtain ⟨hevent, hown⟩ := Option.ite_none_left_eq_some.mp hstep
      obtain ⟨listener', hlistener, rfl⟩ := Option.map_eq_some_iff.mp hown
      exact Listener.mem_keys_own hu' (hkeeps i (List.mem_append_right _ List.mem_cons_self))
        (eq_false_of_ne_true hevent) hlistener

/-! ### A run -/

/-- The text of the event that ends the device `B`. -/
def endedText : String :=
  "\x7b\"serial\": \"B\", \"contents\": " ++
    "\x7b\"event\": \"reservation end\", \"serial\": \"B\"\x7d\x7d"

/-- `json.dumps`, on this event. -/
def dumpsEnded : Json ℕ → Option String
  | .object [("serial", .str "B"),
      ("contents", .object [("event", .str "reservation end"), ("serial", .str "B")])] =>
    some endedText
  | _ => none

/-- `json.loads`, on its text. -/
def loadsEnded (text : String) : Option (Json ℕ) :=
  if text = endedText then
    some (.object [("serial", .str "B"),
      ("contents", .object [("event", .str "reservation end"), ("serial", .str "B")])])
  else none

/-- A client of one server. -/
def oneServer : Channel Unit ℕ ℕ where
  dumps := dumpsEnded
  loads := loadsEnded
  loads_dumps := by
    intro v text h
    rw [dumpsEnded.eq_def] at h
    split at h
    · obtain rfl := Option.some.inj h
      rfl
    · cases h
  client := fun _ _ => "client"
  name := "client"
  logEvents := false

/-- The client adds the devices it has reserved, and connects. -/
def connects : List (NetworkInput Unit ℕ ℕ) :=
  [.own (.operate (.reserve (some [⟨"A", "10.0.0.1", 8081⟩, ⟨"B", "10.0.0.1", 8081⟩]))),
    .server () (.sender (.connect 1 (some "client"))), .server () (.sender (.task 0)),
    .server () (.sender (.task 0)), .server () (.sender (.task 0))]

/-- It is told that its reservation of the device `B` has ended. -/
def announces : List (NetworkInput Unit ℕ ℕ) :=
  [.server () (.sendClientJson "B" "client" ⟨[("event", .str "reservation end")], by decide⟩),
    .server () (.sender (.task 0)), .server () (.sender (.task 0)),
    .server () (.sender (.flush 0 1 true)), .server () (.sender (.flush 0 1 true)),
    .arrive () endedText 1]

/-- The client before anything has happened. -/
def newListener : Listener ℕ := ⟨.start, [], []⟩

/-- It holds both devices then. -/
theorem connects_run :
    ((machine oneServer).run (start Control.oneReserved newListener) connects).map
      (fun s => s.listener.client.connectionInfo.keys) = some ["A", "B"] := by
  decide +kernel

/-- The device `B` is forgotten. -/
theorem announces_run :
    ((machine oneServer).run (start Control.oneReserved newListener)
      (connects ++ announces)).map (fun s => s.listener.client.connectionInfo.keys) =
        some ["A"] := by
  decide +kernel

theorem announces_tracked :
    ∃ s t, (machine oneServer).run (start Control.oneReserved newListener) connects = some s ∧
      (machine oneServer).run s announces = some t ∧
      "A" ∈ t.listener.client.connectionInfo.keys ∧
      "B" ∉ t.listener.client.connectionInfo.keys := by
  obtain ⟨s, hs, hkeys⟩ := Option.map_eq_some_iff.mp connects_run
  obtain ⟨t, hst, hkept⟩ := Option.map_eq_some_iff.mp announces_run
  have ht : (machine oneServer).run s announces = some t := by
    rwa [Machine.run_append, hs] at hst
  refine ⟨s, t, hs, ht, ?_, by rw [hkept]; decide⟩
  refine tracked_of_not_told (fun v sid name hmem => ?_) hs (by rw [hkeys]; decide) ht
    (by decide +kernel) fun i hi => ?_
  · have hname : sid = 1 ∧ name = "client" := by simpa [connects, announces] using hmem
    exact hname.2.symm
  · simp [announces] at hi

end Network

end UsbipIce
