import UsbipIce.Client.AbstractEventHandler
import UsbipIce.Client.PulseCountClient
import UsbipIce.Utils.Json

/-!
# Extending a reservation that is about to end

A `PulseCountClient` installs a `ReservationExtender`, whose
`handleReservationEndingSoon` is to extend the reservation of a device when
control announces its end. `EventServer.handleEvent` gives every event to every
handler, and a handler takes the method that its class has registered for the
event.

`ReservationExtender` registers nothing, so the announcement gets to no method
(`UsbipIce.Listener.handle_extender`); and the method, if it were called, would
subscript `extend` in place of calling it. So no event makes the client extend
anything. Apart from the announcements, an event is served unless it makes a
handler raise: a result of a device that is not waited for does, and so does a
key that cannot be hashed (`UsbipIce.Listener.served_iff`).

A run is the events together with whatever else the client does in between to
its devices and to `remaining_serials`.
-/

namespace UsbipIce

open Lib

/-! ### Events -/

/-- An `Event`, with the dictionary that `json.loads` has made of its contents. -/
structure Event (ν : Type*) where
  serial : Json ν
  event : Json ν
  contents : Table (String × Json ν) Prod.fst

variable {ν : Type*}

/-- A value of a dictionary; that of `null` is `None`, which `get` returns also where
there is no value. -/
def Json.optional : Json ν → Option (Json ν)
  | .null => none
  | .bool b => some (.bool b)
  | .number n => some (.number n)
  | .str s => some (.str s)
  | .array l => some (.array l)
  | .object fields => some (.object fields)

namespace Event

/-- The contents as a method looks at them. -/
def data (e : Event ν) : EventContents (Json ν) := e.contents.mapValues Json.optional

/-- `data.get`, where it does not return `None`. -/
def arg (e : Event ν) (p : String) : Option (Json ν) :=
  (e.contents.find? p).bind fun r => r.2.optional

@[simp] theorem find?_data (e : Event ν) (p : String) :
    (e.data.find? p).bind Prod.snd = e.arg p := by
  rw [data, Table.find?_mapValues, Option.bind_map]
  rfl

end Event

/-- The value can be a key of a dictionary. -/
def Json.hashable : Json ν → Bool
  | .null | .bool _ | .number _ | .str _ => true
  | .array _ | .object _ => false

/-! ### The handlers -/

/-- The classes of the handlers, and `DefaultBaseEventHandler`, which none of
them has as a base. -/
inductive HandlerClass where
  | object
  | abstractEventHandler
  | defaultBaseEventHandler
  | baseClientEventHandler
  | loggerEventHandler
  | reservationExtender
  | pulseCountEventHandler
  | resultHandler
  deriving DecidableEq

/-- The methods for events. -/
inductive HandlerMethod where
  /-- A method that is a docstring. -/
  | docstring
  /-- `handleReservationEnd` and `handleFailure` of `BaseClientEventHandler`. -/
  | removesSerial
  /-- `handleInitialization` of `BaseClientEventHandler`. -/
  | handleInitialization
  /-- `handleReservationEndingSoon` of `ReservationExtender`. -/
  | handleReservationEndingSoon
  /-- `results` of `ResultHandler`. -/
  | results
  deriving DecidableEq

/-- **The classes of the handlers** of a `PulseCountClient`. -/
def handlerClasses : Hierarchy HandlerClass HandlerMethod where
  bases
    | .object => []
    | .abstractEventHandler => [.object]
    | .defaultBaseEventHandler | .baseClientEventHandler | .loggerEventHandler
    | .reservationExtender | .pulseCountEventHandler => [.abstractEventHandler]
    | .resultHandler => [.pulseCountEventHandler]
  mro
    | .object => [.object]
    | .abstractEventHandler => [.abstractEventHandler, .object]
    | .defaultBaseEventHandler => [.defaultBaseEventHandler, .abstractEventHandler, .object]
    | .baseClientEventHandler => [.baseClientEventHandler, .abstractEventHandler, .object]
    | .loggerEventHandler => [.loggerEventHandler, .abstractEventHandler, .object]
    | .reservationExtender => [.reservationExtender, .abstractEventHandler, .object]
    | .pulseCountEventHandler => [.pulseCountEventHandler, .abstractEventHandler, .object]
    | .resultHandler =>
      [.resultHandler, .pulseCountEventHandler, .abstractEventHandler, .object]
  dict
    | .object, _ | .abstractEventHandler, _ | .loggerEventHandler, _ => none
    | .defaultBaseEventHandler, name =>
      if name ∈ ["handleReservationEndingSoon", "handleReservationEnd", "handleFailure"] then
        some .docstring
      else none
    | .baseClientEventHandler, name =>
      if name ∈ ["handleReservationEnd", "handleFailure"] then some .removesSerial
      else if name = "handleInitialization" then some .handleInitialization else none
    | .reservationExtender, name =>
      if name = "handleReservationEndingSoon" then some .handleReservationEndingSoon else none
    | .pulseCountEventHandler, name => if name = "results" then some .docstring else none
    | .resultHandler, name => if name = "results" then some .results else none
  registeredMethods
    | .defaultBaseEventHandler =>
      ⟨[("reservation ending soon", ⟨"handleReservationEndingSoon", ["serial"]⟩),
        ("reservation end", ⟨"handleReservationEnd", ["serial"]⟩),
        ("failure", ⟨"handleFailure", ["serial"]⟩)], by decide⟩
    | .baseClientEventHandler =>
      ⟨[("reservation end", ⟨"handleReservationEnd", ["serial"]⟩),
        ("failure", ⟨"handleFailure", ["serial"]⟩),
        ("initialized", ⟨"handleInitialization", ["serial"]⟩)], by decide⟩
    | .pulseCountEventHandler | .resultHandler =>
      ⟨[("results", ⟨"results", ["serial", "results"]⟩)], by decide⟩
    | .object | .abstractEventHandler | .loggerEventHandler | .reservationExtender => ∅
  wellFounded := Hierarchy.wellFounded_of_rank HandlerClass.ctorIdx
    (by rintro (_ | _ | _ | _ | _ | _ | _ | _) <;> decide)
  linear := by
    rintro (_ | _ | _ | _ | _ | _ | _ | _)
    · exact ⟨_, rfl, .nil (by decide)⟩
    · exact ⟨_, rfl, .cons rfl (.nil (by decide))⟩
    · exact ⟨_, rfl, .cons rfl (.cons rfl (.nil (by decide)))⟩
    · exact ⟨_, rfl, .cons rfl (.cons rfl (.nil (by decide)))⟩
    · exact ⟨_, rfl, .cons rfl (.cons rfl (.nil (by decide)))⟩
    · exact ⟨_, rfl, .cons rfl (.cons rfl (.nil (by decide)))⟩
    · exact ⟨_, rfl, .cons rfl (.cons rfl (.nil (by decide)))⟩
    · exact ⟨_, rfl, .cons rfl (.cons rfl (.cons rfl (.nil (by decide))))⟩
  registers := by rintro (_ | _ | _ | _ | _ | _ | _ | _) <;> decide

/-! ### The client -/

/-- A `PulseCountClient`, as far as its handlers look at it. -/
structure Listener (ν : Type*) where
  client : Client
  remainingSerials : List String
  /-- The serials of each `extend` request sent to control. Nothing in the source
  reads it. -/
  extended : List (List (Json ν))

/-- What a call leaves. -/
structure Delivery (ν : Type*) where
  listener : Listener ν
  raised : Bool

namespace Listener

/-- `BaseAPI.extend`. -/
def extend (s : Listener ν) (serials : List (Json ν)) : Listener ν :=
  { s with extended := s.extended ++ [serials] }

/-- `BaseClient.removeSerial`, which looks the serial up in `connection_info`. -/
def removeSerial (s : Listener ν) : Json ν → Delivery ν
  | .str serial => ⟨{ s with client := s.client.removeSerial serial }, false⟩
  | .null | .bool _ | .number _ => ⟨s, false⟩
  | .array _ | .object _ => ⟨s, true⟩

/-- `_addResult`: what it does to `remaining_serials`. -/
def addResult (s : Listener ν) : Json ν → Delivery ν
  | .str serial =>
    if serial ∈ s.remainingSerials then
      ⟨{ s with remainingSerials := s.remainingSerials.erase serial }, false⟩
    else ⟨s, true⟩
  | .null | .bool _ | .number _ | .array _ | .object _ => ⟨s, true⟩

/-- The body of a method, called with these arguments. -/
def perform (s : Listener ν) : HandlerMethod → List (Json ν) → Delivery ν
  | .docstring, _ => ⟨s, false⟩
  | .removesSerial, [serial] => s.removeSerial serial
  -- `discard` of a set of serials
  | .handleInitialization, [serial] => ⟨s, !serial.hashable⟩
  -- `self.client.extend[serial]`: a method is not subscriptable
  | .handleReservationEndingSoon, [_] => ⟨s, true⟩
  | .results, [serial, _] => s.addResult serial
  -- too few or too many arguments
  | .removesSerial, _ | .handleInitialization, _ | .handleReservationEndingSoon, _
  | .results, _ => ⟨s, true⟩

/-- What a handler does about the answer of the search. -/
def take (s : Listener ν) : EventAnswer HandlerMethod (Json ν) → Delivery ν
  | .false => ⟨s, false⟩
  | .calls fn args => s.perform fn args

/-- `handleEvent` of a handler other than the logger, for some rounds of the loop
that looks for the method; `none` where that is not over. -/
def handleBy (s : Listener ν) (n : ℕ) (eh : HandlerClass) (e : Event ν) : Option (Delivery ν) :=
  match e.event with
  | .str event => (handlerClasses.handleEvent n ⟨eh, fun _ => none⟩ event e.data).map s.take
  -- no method is registered for what is no text
  | .null | .bool _ | .number _ => some ⟨s, false⟩
  -- the look-up raises, if there is one: a class without methods is passed over before it
  | .array _ | .object _ => some ⟨s, !(handlerClasses.registeredMethods eh).rows.isEmpty⟩

/-- `handleEvent` of a handler. That of the logger is its own, and logs. -/
def handle (s : Listener ν) (n : ℕ) (eh : HandlerClass) (e : Event ν) : Option (Delivery ν) :=
  if eh = .loggerEventHandler then some ⟨s, false⟩ else s.handleBy n eh e

/-- `EventServer.handleEvent`, for the handlers to come. -/
def deliver (n : ℕ) (e : Event ν) : List HandlerClass → Listener ν → Option (Delivery ν)
  | [], s => some ⟨s, false⟩
  | eh :: ehs, s => (s.handle n eh e).bind fun d =>
      if d.raised then some d else deliver n e ehs d.listener

/-- The handlers, in the order `__init__` adds them. -/
def eventHandlers (logEvents : Bool) : List HandlerClass :=
  .baseClientEventHandler :: (if logEvents then [.loggerEventHandler] else []) ++
    [.reservationExtender, .resultHandler]

/-- Rounds enough for the loop of every handler. -/
def rounds : ℕ := 4

theorem le_rounds : 4 ≤ rounds := Nat.le_refl _

/-- What happens to a client. -/
inductive Input (ν : Type*) where
  | event (e : Event ν)
  /-- `extend` is called by the owner of the client. -/
  | extend (serials : List (Json ν))
  | operate (op : Client.Op)
  /-- `evaluate` assigns `remaining_serials`. -/
  | await (serials : List String)

/-- One step. Where a handler raises, the thread of the socket ends the delivery. -/
def step (logEvents : Bool) (s : Listener ν) : Input ν → Option (Listener ν)
  | .event e => (deliver rounds e (eventHandlers logEvents) s).map Delivery.listener
  | .extend serials => some (s.extend serials)
  | .operate op => some { s with client := s.client.step op }
  | .await serials => some { s with remainingSerials := serials }

variable (ν) in
/-- A client as a machine. -/
def machine (logEvents : Bool) : Machine (Listener ν) (Input ν) := ⟨step logEvents⟩

/-! ### What an event is to do -/

/-- The extend requests that an event is to make the client send. -/
def due (e : Event ν) : List (List (Json ν)) :=
  match e.event with
  | .str event => if event = "reservation ending soon" then [[e.serial]] else []
  | _ => []

/-- **An event is served**: the delivery ends, raises nothing, and sends the
extend requests due. -/
def Served (logEvents : Bool) (s : Listener ν) (e : Event ν) : Prop :=
  ∃ d, deliver rounds e (eventHandlers logEvents) s = some d ∧ d.raised = false ∧
    d.listener.extended = s.extended ++ due e

/-- The serial of a device that ends or starts can be looked up. -/
def LooksUp (e : Event ν) : Prop :=
  ∀ event ∈ ["reservation end", "failure", "initialized"], e.event = .str event →
    ∀ serial, e.arg "serial" = some serial → serial.hashable = true

/-- A result is of a device that is waited for. -/
def Awaits (s : Listener ν) (e : Event ν) : Prop :=
  e.event = .str "results" → ∀ serial results, e.arg "serial" = some serial →
    e.arg "results" = some results → ∃ x ∈ s.remainingSerials, serial = .str x

/-- The event announces no end, and no handler raises on it. -/
structure Harmless (s : Listener ν) (e : Event ν) : Prop where
  not_ending : e.event ≠ .str "reservation ending soon"
  hashable : e.event.hashable = true
  looksUp : LooksUp e
  awaits : s.Awaits e

/-! ### Looking for the method -/

variable {e : Event ν} {s : Listener ν} {n : ℕ}

/-- **A handler takes what its own class has registered**: the classes above have
nothing else. -/
theorem search_own (hn : 4 ≤ n) (event : String) {c : HandlerClass}
    (hc : c ∈ [.baseClientEventHandler, .reservationExtender, .resultHandler]) :
    handlerClasses.search event n [c] = some (handlerClasses.registration event c) := by
  obtain ⟨n, rfl⟩ := Nat.exists_eq_add_of_le' hn
  have habove : handlerClasses.search event (n + 2) [.abstractEventHandler] = some none :=
    Hierarchy.search_of_unregistered handlerClasses event rfl (by omega)
  simp only [List.mem_cons, List.not_mem_nil, or_false] at hc
  rcases hc with rfl | rfl | rfl
  · rw [Hierarchy.search, if_neg (by decide), Hierarchy.registration]
    cases (handlerClasses.registeredMethods .baseClientEventHandler).find? event with
    | some m => rfl
    | none => rfl
  · rw [Hierarchy.search_of_unregistered handlerClasses event rfl (by omega)]
    rfl
  · rw [Hierarchy.search, if_neg (by decide), Hierarchy.registration]
    cases hfind : (handlerClasses.registeredMethods .resultHandler).find? event with
    | some m => rfl
    | none =>
      -- its base has registered the same
      have hbase : (handlerClasses.registeredMethods .pulseCountEventHandler).find? event = none :=
        hfind
      dsimp only
      rw [show (handlerClasses.bases .resultHandler).reverse.foldl (fun l cls => cls :: l) [] =
        [.pulseCountEventHandler] from rfl, Hierarchy.search, if_neg (by decide), hbase]
      exact habove

/-! ### What the handlers do -/

/-- A method of one parameter is called where the argument is there. -/
theorem call_one {attr : JsonMethodCall} {obj : EventHandler HandlerClass HandlerMethod}
    {fn : HandlerMethod} {p : String} (hp : attr.parms = [p])
    (hfn : handlerClasses.getattr obj attr.name = some fn) :
    handlerClasses.call attr obj e.data =
      (e.arg p).elim .false fun v => .calls fn [v] := by
  simp only [Hierarchy.call, JsonMethodCall.args, hp, hfn, List.map_cons, List.map_nil,
    Event.find?_data]
  cases e.arg p with
  | none => rfl
  | some v => rfl

/-- A method of two parameters is called where both arguments are there. -/
theorem call_two {attr : JsonMethodCall} {obj : EventHandler HandlerClass HandlerMethod}
    {fn : HandlerMethod} {p q : String} (hp : attr.parms = [p, q])
    (hfn : handlerClasses.getattr obj attr.name = some fn) :
    handlerClasses.call attr obj e.data =
      (e.arg p).elim .false fun v => (e.arg q).elim .false fun w => .calls fn [v, w] := by
  simp only [Hierarchy.call, JsonMethodCall.args, hp, hfn, List.map_cons, List.map_nil,
    Event.find?_data]
  cases e.arg p with
  | none => rfl
  | some v =>
    cases e.arg q with
    | none => rfl
    | some w => rfl

/-- What a handler does on an event with a text. -/
theorem handleBy_str (hn : 4 ≤ n) {event : String} (he : e.event = .str event) {c : HandlerClass}
    (hc : c ∈ [.baseClientEventHandler, .reservationExtender, .resultHandler]) :
    s.handleBy n c e = some (s.take (match handlerClasses.registration event c with
      | none => .false
      | some (_, attr) => handlerClasses.call attr ⟨c, fun _ => none⟩ e.data)) := by
  rw [handleBy, he]
  dsimp only
  rw [Hierarchy.handleEvent, search_own hn event hc, Option.map_some, Option.map_some]
  cases handlerClasses.registration event c with
  | none => rfl
  | some m => rfl

/-- A class has no method for an event that is none of its keys. -/
theorem registration_eq_none {event : String} {c : HandlerClass}
    (h : event ∉ (handlerClasses.registeredMethods c).keys) :
    handlerClasses.registration event c = none := by
  rw [Hierarchy.registration, Table.find?_eq_none.mpr h, Option.map_none]

/-- A handler calls its method of one parameter, where the argument is there. -/
theorem handleBy_of_registration (hn : 4 ≤ n) {event : String} (he : e.event = .str event)
    {c : HandlerClass} (hc : c ∈ [.baseClientEventHandler, .reservationExtender, .resultHandler])
    {attr : JsonMethodCall} {fn : HandlerMethod} {p : String}
    (hreg : handlerClasses.registration event c = some (c, attr)) (hparms : attr.parms = [p])
    (hget : handlerClasses.getattr ⟨c, fun _ => none⟩ attr.name = some fn) :
    s.handleBy n c e = some (s.take ((e.arg p).elim .false fun v => .calls fn [v])) := by
  rw [handleBy_str hn he hc, hreg]
  dsimp only
  rw [call_one hparms hget]

/-- A handler does nothing on an event that its class has not registered. -/
theorem handleBy_of_not_mem (hn : 4 ≤ n) {event : String} (he : e.event = .str event)
    {c : HandlerClass} (hc : c ∈ [.baseClientEventHandler, .reservationExtender, .resultHandler])
    (h : event ∉ (handlerClasses.registeredMethods c).keys) :
    s.handleBy n c e = some ⟨s, false⟩ := by
  rw [handleBy_str hn he hc, registration_eq_none h]
  rfl

/-- `removeSerial` raises on what cannot be hashed, and is about `connection_info`
only. -/
@[simp] theorem removeSerial_spec (s : Listener ν) (serial : Json ν) :
    (s.removeSerial serial).listener.remainingSerials = s.remainingSerials ∧
      ((s.removeSerial serial).raised = false ↔ serial.hashable = true) := by
  cases serial <;> simp [removeSerial, Json.hashable]

theorem raised_addResult (s : Listener ν) (serial : Json ν) :
    (s.addResult serial).raised = false ↔ ∃ x ∈ s.remainingSerials, serial = .str x := by
  cases serial with
  | str x =>
    rw [addResult]
    split <;> simp_all
  | _ => simp [addResult]

/-- **No method makes the client extend anything.** -/
@[simp] theorem extended_perform (s : Listener ν) (fn : HandlerMethod) (args : List (Json ν)) :
    (s.perform fn args).listener.extended = s.extended := by
  rw [perform.eq_def]
  split
  case h_2 serial => cases serial <;> rfl
  case h_5 serial _ =>
    cases serial with
    | str x =>
      rw [addResult]
      split <;> rfl
    | _ => rfl
  all_goals rfl

theorem extended_handle {eh : HandlerClass} {d : Delivery ν} (h : s.handle n eh e = some d) :
    d.listener.extended = s.extended := by
  rw [handle] at h
  split at h
  · rw [← Option.some.inj h]
  · rw [handleBy.eq_def] at h
    split at h
    · obtain ⟨answer, -, rfl⟩ := Option.map_eq_some_iff.mp h
      cases answer with
      | false => rfl
      | calls fn args => exact extended_perform s fn args
    all_goals rw [← Option.some.inj h]

/-- **No event makes the client extend anything.** -/
theorem extended_deliver {ehs : List HandlerClass} {d : Delivery ν}
    (h : deliver n e ehs s = some d) : d.listener.extended = s.extended := by
  induction ehs generalizing s with
  | nil => rw [← Option.some.inj h]
  | cons eh ehs ih =>
    obtain ⟨d', hd', hrest⟩ := Option.bind_eq_some_iff.mp h
    split at hrest
    · rw [← Option.some.inj hrest, extended_handle hd']
    · rw [ih hrest, extended_handle hd']

/-- The methods of the client's handler look the serial up, if it is there. -/
theorem take_looked_up (s : Listener ν) {fn : HandlerMethod}
    (hfn : fn = .removesSerial ∨ fn = .handleInitialization) (arg : Option (Json ν)) :
    (s.take (arg.elim .false fun v => .calls fn [v])).listener.remainingSerials =
        s.remainingSerials ∧
      ((s.take (arg.elim .false fun v => .calls fn [v])).raised = false ↔
        ∀ serial, arg = some serial → serial.hashable = true) := by
  cases arg with
  | none =>
    refine ⟨rfl, iff_of_true rfl fun serial h => ?_⟩
    cases h
  | some v =>
    have hall : (∀ serial, some v = some serial → serial.hashable = true) ↔ v.hashable = true :=
      ⟨fun h => h v rfl, fun h serial heq => Option.some.inj heq ▸ h⟩
    rw [hall]
    rcases hfn with rfl | rfl
    · exact s.removeSerial_spec v
    · exact ⟨rfl, Bool.not_eq_eq_eq_not.trans Iff.rfl⟩

/-- The methods registered by the client's handler. -/
theorem registration_base {event : String}
    (h : event ∈ ["reservation end", "failure", "initialized"]) :
    ∃ attr fn, handlerClasses.registration event .baseClientEventHandler =
        some (.baseClientEventHandler, attr) ∧ attr.parms = ["serial"] ∧
      handlerClasses.getattr ⟨.baseClientEventHandler, fun _ => none⟩ attr.name = some fn ∧
      (fn = .removesSerial ∨ fn = .handleInitialization) := by
  simp only [List.mem_cons, List.not_mem_nil, or_false] at h
  rcases h with rfl | rfl | rfl
  · exact ⟨⟨"handleReservationEnd", ["serial"]⟩, .removesSerial, by decide⟩
  · exact ⟨⟨"handleFailure", ["serial"]⟩, .removesSerial, by decide⟩
  · exact ⟨⟨"handleInitialization", ["serial"]⟩, .handleInitialization, by decide⟩

/-- **The handler of the client** raises on a name that cannot be hashed, and on a
serial that cannot be where it looks that up. -/
theorem handle_base (hn : 4 ≤ n) (s : Listener ν) (e : Event ν) :
    ∃ d, s.handle n .baseClientEventHandler e = some d ∧
      d.listener.remainingSerials = s.remainingSerials ∧
      (d.raised = false ↔ e.event.hashable = true ∧ LooksUp e) := by
  rw [handle, if_neg (by decide), LooksUp]
  cases he : e.event with
  | null | bool _ | number _ =>
    refine ⟨⟨s, false⟩, by rw [handleBy, he], rfl, iff_of_true rfl ⟨rfl, ?_⟩⟩
    intro event _ heq
    cases heq
  | array _ | object _ =>
    refine ⟨⟨s, true⟩, by rw [handleBy, he]; rfl, rfl, iff_of_false (by simp) ?_⟩
    rintro ⟨hhash, -⟩
    cases hhash
  | str event =>
    -- the serial is looked up for the events registered, and for no other
    have hlook : (∀ event' ∈ ["reservation end", "failure", "initialized"],
        (Json.str event : Json ν) = .str event' → ∀ serial, e.arg "serial" = some serial →
          serial.hashable = true) ↔ (event ∈ ["reservation end", "failure", "initialized"] →
            ∀ serial, e.arg "serial" = some serial → serial.hashable = true) := by
      constructor
      · intro h hmem
        exact h event hmem rfl
      · rintro h event' hmem heq
        obtain rfl := Json.str.inj heq
        exact h hmem
    rw [hlook, and_iff_right (show (Json.str event : Json ν).hashable = true from rfl)]
    by_cases hmem : event ∈ ["reservation end", "failure", "initialized"]
    · obtain ⟨attr, fn, hreg, hparms, hget, hfn⟩ := registration_base hmem
      rw [forall_prop_of_true hmem]
      exact ⟨_, handleBy_of_registration hn he (by decide) hreg hparms hget,
        s.take_looked_up hfn (e.arg "serial")⟩
    · exact ⟨_, handleBy_of_not_mem hn he (by decide) hmem, rfl,
        iff_of_true rfl fun h => absurd h hmem⟩

/-- **The extender does nothing**, whatever the event: it has registered no
method. -/
theorem handle_extender (hn : 4 ≤ n) (s : Listener ν) (e : Event ν) :
    s.handle n .reservationExtender e = some ⟨s, false⟩ := by
  rw [handle, if_neg (by decide)]
  cases he : e.event with
  | str event => exact handleBy_of_not_mem hn he (by decide) List.not_mem_nil
  | _ => rw [handleBy, he] <;> rfl

/-- What becomes of results. -/
theorem handleBy_results (hn : 4 ≤ n) (he : e.event = .str "results") :
    s.handleBy n .resultHandler e = some (s.take ((e.arg "serial").elim .false fun v =>
      (e.arg "results").elim .false fun w => .calls .results [v, w])) := by
  have hreg : handlerClasses.registration "results" .resultHandler =
      some (.resultHandler, ⟨"results", ["serial", "results"]⟩) := by decide
  have hget : handlerClasses.getattr ⟨.resultHandler, fun _ => none⟩ "results" =
      some .results := by decide
  rw [handleBy_str hn he (by decide), hreg]
  dsimp only
  rw [call_two rfl hget]

/-- **The handler of the results** raises on a result that is not waited for. -/
theorem handle_result (hn : 4 ≤ n) (s : Listener ν) (e : Event ν) :
    ∃ d, s.handle n .resultHandler e = some d ∧
      (d.raised = false ↔ e.event.hashable = true ∧ s.Awaits e) := by
  rw [handle, if_neg (by decide), Awaits]
  cases he : e.event with
  | null | bool _ | number _ =>
    refine ⟨⟨s, false⟩, by rw [handleBy, he], iff_of_true rfl ⟨rfl, fun heq => ?_⟩⟩
    cases heq
  | array _ | object _ =>
    refine ⟨⟨s, true⟩, by rw [handleBy, he]; rfl, iff_of_false (by simp) ?_⟩
    rintro ⟨hhash, -⟩
    cases hhash
  | str event =>
    rw [and_iff_right (show (Json.str event : Json ν).hashable = true from rfl)]
    by_cases hname : event = "results"
    · subst hname
      refine ⟨_, handleBy_results hn he, ?_⟩
      rw [forall_prop_of_true rfl]
      cases hserial : e.arg "serial" with
      | none => exact iff_of_true rfl (by simp)
      | some serial =>
        cases hresults : e.arg "results" with
        | none => exact iff_of_true rfl (by simp)
        | some results =>
          have hall : (∀ serial' results', some serial = some serial' →
              some results = some results' → ∃ x ∈ s.remainingSerials, serial' = .str x) ↔
                ∃ x ∈ s.remainingSerials, serial = .str x :=
            ⟨fun h => h serial results rfl rfl,
              fun h serial' _ heq _ => Option.some.inj heq ▸ h⟩
          rw [hall]
          exact s.raised_addResult serial
    · refine ⟨_, handleBy_of_not_mem hn he (by decide) fun h => hname (List.mem_singleton.mp h), ?_⟩
      exact iff_of_true rfl fun heq => absurd (Json.str.inj heq) hname

/-! ### Deliveries -/

/-- A handler that leaves everything alone is passed. -/
theorem deliver_cons_of_quiet {eh : HandlerClass} {ehs : List HandlerClass}
    (h : s.handle n eh e = some ⟨s, false⟩) : deliver n e (eh :: ehs) s = deliver n e ehs s := by
  rw [deliver, h]
  rfl

@[simp] theorem deliver_singleton {eh : HandlerClass} : deliver n e [eh] s = s.handle n eh e := by
  rw [deliver]
  cases s.handle n eh e with
  | none => rfl
  | some d =>
    obtain ⟨t, raised⟩ := d
    cases raised with
    | false => rfl
    | true => rfl

/-- After the client's handler, only that of the results does anything. -/
theorem deliver_rest (logEvents : Bool) (s : Listener ν) (e : Event ν) :
    deliver rounds e ((if logEvents then [.loggerEventHandler] else []) ++
      [.reservationExtender, .resultHandler]) s = s.handle rounds .resultHandler e := by
  have hextender : deliver rounds e [.reservationExtender, .resultHandler] s =
      s.handle rounds .resultHandler e := by
    simp [deliver_cons_of_quiet (handle_extender le_rounds s e)]
  cases logEvents with
  | false => exact hextender
  | true => exact (deliver_cons_of_quiet rfl).trans hextender

/-- **A delivery** ends; it raises nothing where neither the client's handler nor
that of the results does. -/
theorem deliver_spec (logEvents : Bool) (s : Listener ν) (e : Event ν) :
    ∃ d, deliver rounds e (eventHandlers logEvents) s = some d ∧
      (d.raised = false ↔ e.event.hashable = true ∧ LooksUp e ∧ s.Awaits e) := by
  obtain ⟨d, hd, hremaining, hraised⟩ := handle_base le_rounds s e
  obtain ⟨d', hd', hraised'⟩ := handle_result le_rounds d.listener e
  have hawaits : d.listener.Awaits e ↔ s.Awaits e := by rw [Awaits, Awaits, hremaining]
  rw [hawaits] at hraised'
  rw [eventHandlers, List.cons_append, deliver, hd, Option.bind_some, deliver_rest, hd']
  cases hr : d.raised with
  | true =>
    refine ⟨d, rfl, iff_of_false (by simp [hr]) fun h => ?_⟩
    rw [hraised.mpr ⟨h.1, h.2.1⟩] at hr
    cases hr
  | false =>
    refine ⟨d', rfl, ?_⟩
    rw [hraised', and_iff_right (hraised.mp hr).2]

/-! ### The events of `PulseCountClient.step` -/

section Steps

variable {μ : Type*}

/-- A `PulseCountClient` as its handlers look at it. -/
def ofClient (p : PulseCountClient μ) (extended : List (List (Json ν))) : Listener ν :=
  ⟨p.client, p.remainingSerials, extended⟩

/-- The event of an input. -/
def Carries (e : Event ν) : EvaluateInput μ → Prop
  | .results serial _ => e.event = .str "results" ∧ e.arg "serial" = some (.str serial) ∧
      (e.arg "results").isSome = true
  | .handleReservationEnd serial =>
    e.event = .str "reservation end" ∧ e.arg "serial" = some (.str serial)
  | .handleFailure serial => e.event = .str "failure" ∧ e.arg "serial" = some (.str serial)
  | .evaluate _ | .run _ => False

/-- What is delivered about the end of a device goes to the client's handler
alone. -/
theorem deliver_of_removes (logEvents : Bool) {event serial : String}
    (hevent : event = "reservation end" ∨ event = "failure") (he : e.event = .str event)
    (hserial : e.arg "serial" = some (.str serial)) :
    deliver rounds e (eventHandlers logEvents) s = some (s.removeSerial (.str serial)) := by
  have hbase : s.handle rounds .baseClientEventHandler e = some (s.removeSerial (.str serial)) := by
    obtain ⟨attr, hreg, hparms, hget⟩ : ∃ attr,
        handlerClasses.registration event .baseClientEventHandler =
          some (.baseClientEventHandler, attr) ∧ attr.parms = ["serial"] ∧
        handlerClasses.getattr ⟨.baseClientEventHandler, fun _ => none⟩ attr.name =
          some .removesSerial := by
      rcases hevent with rfl | rfl
      · exact ⟨⟨"handleReservationEnd", ["serial"]⟩, by decide⟩
      · exact ⟨⟨"handleFailure", ["serial"]⟩, by decide⟩
    rw [handle, if_neg (by decide),
      handleBy_of_registration le_rounds he (by decide) hreg hparms hget,
      hserial]
    rfl
  have hresults : event ∉ (handlerClasses.registeredMethods .resultHandler).keys := by
    rcases hevent with rfl | rfl <;> decide
  have hresult : ∀ t : Listener ν, t.handle rounds .resultHandler e = some ⟨t, false⟩ := by
    intro t
    rw [handle, if_neg (by decide), handleBy_of_not_mem le_rounds he (by decide) hresults]
  rw [eventHandlers, List.cons_append, deliver, hbase, Option.bind_some, deliver_rest, hresult]
  rfl

/-- **A delivery is the step of its input.** -/
theorem step_of_carries (logEvents : Bool) {p q : PulseCountClient μ} {i : EvaluateInput μ}
    (h : Carries e i) (hi : p.step i = some q) (extended : List (List (Json ν))) :
    step logEvents (ofClient p extended) (.event e) = some (ofClient q extended) := by
  cases i with
  | evaluate paths => exact h.elim
  | run ok => exact h.elim
  | results serial value =>
    obtain ⟨he, hserial, hresults⟩ := h
    obtain ⟨results, hresults⟩ := Option.isSome_iff_exists.mp hresults
    obtain rfl : p.addResult serial value = q := Option.some.inj hi
    have hbase : (ofClient p extended).handle rounds .baseClientEventHandler e =
        some ⟨ofClient p extended, false⟩ := by
      rw [handle, if_neg (by decide), handleBy_of_not_mem le_rounds he (by decide) (by decide)]
    rw [step, eventHandlers, List.cons_append, deliver_cons_of_quiet hbase, deliver_rest, handle,
      if_neg (by decide), handleBy_results le_rounds he, hserial, hresults]
    by_cases hmem : serial ∈ p.remainingSerials
    · have hadd : (ofClient p extended).addResult (.str serial) =
          ⟨ofClient (p.addResult serial value) extended, false⟩ := if_pos hmem
      exact congrArg (fun d => some d.listener) hadd
    · have hadd : (ofClient p extended).addResult (.str serial) = ⟨ofClient p extended, true⟩ :=
        if_neg hmem
      -- `remove` raises, which leaves the serials as they are
      have hsame : ofClient (p.addResult serial value) extended = ofClient p extended := by
        rw [ofClient, ofClient, PulseCountClient.addResult, List.erase_of_not_mem hmem]
      rw [hsame]
      exact congrArg (fun d => some d.listener) hadd
  | handleReservationEnd serial =>
    obtain ⟨he, hserial⟩ := h
    rw [step, deliver_of_removes logEvents (Or.inl rfl) he hserial, ← Option.some.inj hi]
    rfl
  | handleFailure serial =>
    obtain ⟨he, hserial⟩ := h
    rw [step, deliver_of_removes logEvents (Or.inr rfl) he hserial, ← Option.some.inj hi]
    rfl

end Steps

/-! ### Serving every event -/

@[simp]
theorem due_eq_nil_iff {e : Event ν} : due e = [] ↔ e.event ≠ .str "reservation ending soon" := by
  rw [due.eq_def]
  split
  · rename_i event he
    rw [he]
    split <;> simp_all
  · rename_i he
    exact iff_of_true rfl (he _)

/-- **When an event is served**: it announces no end, and no handler raises. -/
theorem served_iff (logEvents : Bool) (s : Listener ν) (e : Event ν) :
    Served logEvents s e ↔ Harmless s e := by
  obtain ⟨d, hd, hraised⟩ := deliver_spec logEvents s e
  have hsent : d.listener.extended = s.extended ++ due e ↔
      e.event ≠ .str "reservation ending soon" := by
    simp [extended_deliver hd]
  constructor
  · rintro ⟨d', hd', hr, hext⟩
    obtain rfl := Option.some.inj (hd.symm.trans hd')
    obtain ⟨hhash, hlook, hawaited⟩ := hraised.mp hr
    exact ⟨hsent.mp hext, hhash, hlook, hawaited⟩
  · intro h
    exact ⟨d, hd, hraised.mpr ⟨h.hashable, h.looksUp, h.awaits⟩, hsent.mpr h.not_ending⟩

/-- **When every event of a run is served**: none announces the end of a
reservation, and none makes a handler raise. -/
theorem extends_iff (logEvents : Bool) (s : Listener ν) (is : List (Input ν)) :
    (∀ js e t, js ++ [.event e] <+: is → (machine ν logEvents).run s js = some t →
        Served logEvents t e) ↔
      (machine ν logEvents).Meets (fun t i => ∀ e, i = .event e → Harmless t e) s is := by
  rw [Machine.meets_iff]
  constructor
  · rintro h js i t hjs ht e rfl
    exact (served_iff logEvents t e).mp (h js e t hjs ht)
  · intro h js e t hjs ht
    exact (served_iff logEvents t e).mpr (h js _ t hjs ht e rfl)

/-- The end of a reservation is announced, and nothing is extended. -/
theorem endingSoon_unextended :
    ¬ ∀ (logEvents : Bool) (s : Listener ℕ) (is : List (Input ℕ)),
      ∀ js e t, js ++ [.event e] <+: is → (machine ℕ logEvents).run s js = some t →
        Served logEvents t e := by
  intro h
  let e : Event ℕ := ⟨.str "A", .str "reservation ending soon",
    ⟨[("event", .str "reservation ending soon"), ("serial", .str "A")], by decide⟩⟩
  obtain ⟨d, hd, -, hext⟩ := h false ⟨.start, [], []⟩ [.event e] [] e _ (List.prefix_refl _) rfl
  rw [extended_deliver hd] at hext
  exact List.cons_ne_nil _ _ hext.symm

end Listener

end UsbipIce
