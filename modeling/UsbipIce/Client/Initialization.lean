import Mathlib.Data.Finset.Basic
import UsbipIce.Client.Connections

/-!
# Waiting for initializations

`BaseClient.reserve` waits until every device it was given has said that it is
initialized. `waitUntilInitilized` makes a set of the serials,
`awaiting_serials`, and `handleInitialization`, on the threads of the sockets,
discards from it.

The set is made last: the workers are connected before, one after the other, and
a worker sends what it has for the client as soon as it is connected. An event
that comes before the set is there is discarded from the set of an earlier call,
and the call waits for it for ever
(`UsbipIce.BaseClient.early_waits`). There is a list for such events,
`recently_added_serials`, but nothing is ever put there
(`UsbipIce.BaseClient.Inv.recently`).

Where no event is handled on an older set, none is missed
(`UsbipIce.BaseClient.awaiting_eq_empty`).
-/

namespace UsbipIce

open Lib Database

/-! ### The client -/

/-- Where the call of `BaseClient.reserve` is that has `reservation_lock`. -/
inductive ReserveCall where
  /-- There is none. -/
  | idle
  /-- The request is under way. -/
  | requesting
  /-- Control has made the reservations, and its answer is under way. -/
  | reserved (rows : List ReservedRow)
  /-- In the loop of `BaseAPI.reserve`. -/
  | adding (rows : List ReservedRow) (out : List String)
  /-- In the loop of `BaseClient.reserve`. -/
  | connecting (serials connected : List String)
  /-- In the loop, at `connectWorker`. -/
  | joining (info : ConnectionInfo) (serial : String) (serials connected : List String)
  /-- At the assignment of `waitUntilInitilized`. -/
  | connected (serials : List String)
  /-- `awaiting_serials` is set; at the section. -/
  | entering (serials : List String)
  /-- In `wait_for`. -/
  | waiting (serials : List String)
  | returned (serials : List String)
  /-- Ended by an exception. -/
  | raised
  deriving DecidableEq

namespace ReserveCall

/-- The serials reserved by the call. -/
def serials : ReserveCall → List String
  | .idle | .requesting | .raised => []
  | .reserved rows => rows.map ReservedRow.serial
  | .adding rows out => out ++ rows.map ReservedRow.serial
  | .connecting serials done => done ++ serials
  | .joining _ serial serials done => done ++ serial :: serials
  | .connected serials | .entering serials | .waiting serials | .returned serials => serials

/-- The call has set `awaiting_serials`. -/
def Awaits : ReserveCall → Prop
  | .entering _ | .waiting _ | .returned _ => True
  | .idle | .requesting | .reserved _ | .adding .. | .connecting .. | .joining .. | .connected _
  | .raised => False

instance : ∀ c, Decidable (Awaits c)
  | .entering _ | .waiting _ | .returned _ => .isTrue trivial
  | .idle | .requesting | .reserved _ | .adding .. | .connecting .. | .joining .. | .connected _
  | .raised => .isFalse id

end ReserveCall

/-- A `BaseClient`, with the call of `reserve` under way and the handler of
`initialized` that has `cond`. -/
structure BaseClient where
  client : Client
  /-- `control_socket` is a socket. -/
  controlSocket : Bool
  recentlyAddedSerials : List String
  /-- The set objects made. -/
  sets : List (Finset String)
  /-- The set object that is `awaiting_serials`. -/
  awaitingSerials : ℕ
  call : ReserveCall
  /-- The serial that the handler is about to discard, and the set object it has
  loaded. -/
  handler : Option (String × ℕ)
  /-- The serials handled since the reservations of the call were made. Nothing
  in the source reads it. -/
  handled : List String

/-- What a client is driven by. -/
inductive ClientInput where
  /-- `reserve` is called, and has the lock. -/
  | reserve
  /-- Control makes reservations. -/
  | control (rows : List ReservedRow)
  /-- The request comes back, with control's answer or a failure. -/
  | answer (ok : Bool)
  /-- The thread of the call goes on; `attempt` is the outcome of a connection
  attempt. -/
  | run (attempt : Bool)
  /-- `handleInitialization` enters its section, and loads `awaiting_serials`. -/
  | handle (serial : String)
  /-- It discards, and leaves its section. -/
  | discard
  /-- `removeSerial`, by a handler or a call of `end`. -/
  | remove (serial : String)

namespace BaseClient

/-- A client with nothing reserved. -/
def start (controlSocket : Bool) : BaseClient where
  client := .start
  controlSocket := controlSocket
  recentlyAddedSerials := []
  sets := [∅]
  awaitingSerials := 0
  call := .idle
  handler := none
  handled := []

/-- What `awaiting_serials` has. -/
def awaiting (s : BaseClient) : Finset String := s.sets[s.awaitingSerials]?.getD ∅

/-- The thread of the call goes on. -/
def stepCall (s : BaseClient) (attempt : Bool) : Option BaseClient :=
  match s.call with
  | .idle | .requesting | .reserved _ | .returned _ | .raised => none
  | .adding (row :: rows) out =>
    some { s with
      client := s.client.addRow row
      call := .adding rows (out ++ [row.serial]) }
  | .adding [] out => some { s with call := if out = [] then .idle else .connecting out [] }
  | .connecting (serial :: serials) connected =>
    match s.client.getConnectionInfo serial with
    -- `info.url()` of `None`
    | none => some { s with call := .raised }
    | some info => some { s with call := .joining info serial serials connected }
  | .connecting [] connected => some { s with call := .connected connected }
  | .joining info serial serials connected =>
    if s.controlSocket then
      some { s with
        client := s.client.connectWorker info.url attempt
        call := .connecting serials (connected ++ [serial]) }
    else some { s with call := .raised }
  | .connected serials =>
    -- not in the section
    some { s with
      sets := s.sets ++ [serials.toFinset]
      awaitingSerials := s.sets.length
      call := .entering serials }
  | .entering serials =>
    if s.handler.isSome then none
    else
      match s.recentlyAddedSerials with
      -- `pop` of a set takes no argument
      | _ :: _ => some { s with call := .raised }
      | [] => some { s with call := if s.awaiting = ∅ then .returned serials else .waiting serials }
  | .waiting serials =>
    -- the handler that empties the set notifies
    if s.handler.isSome || s.awaiting ≠ ∅ then none
    else some { s with call := .returned serials }

/-- One step. -/
def step (s : BaseClient) : ClientInput → Option BaseClient
  | .reserve =>
    match s.call with
    | .idle | .returned _ | .raised => some { s with call := .requesting }
    | _ => none
  | .control rows =>
    match s.call with
    | .requesting =>
      some { s with
        call := .reserved rows
        handled := [] }
    | _ => none
  | .answer ok =>
    match s.call with
    | .requesting => some { s with call := .idle }
    | .reserved rows => some { s with call := if ok then .adding rows [] else .idle }
    | _ => none
  | .run attempt => s.stepCall attempt
  | .handle serial =>
    if s.handler.isSome then none
    else some { s with handler := some (serial, s.awaitingSerials) }
  | .discard =>
    match s.handler with
    | none => none
    | some (serial, k) =>
      some { s with
        sets := s.sets.modify k fun set => set.erase serial
        handler := none
        handled := s.handled ++ [serial] }
  | .remove serial => some { s with client := s.client.removeSerial serial }

/-- A client as a machine. -/
def machine : Machine BaseClient ClientInput := ⟨step⟩

/-! ### What is awaited -/

/-- **The invariant**, of runs in which no event is handled early: the serials
of the call have not been handled before `awaiting_serials` is set, and what is
left there afterwards has not been handled. -/
structure Inv (s : BaseClient) : Prop where
  recently : s.recentlyAddedSerials = []
  early : ¬s.call.Awaits → ∀ serial ∈ s.call.serials, serial ∉ s.handled
  late : s.call.Awaits → ∀ serial ∈ s.awaiting, serial ∈ s.call.serials ∧ serial ∉ s.handled

theorem inv_start (controlSocket : Bool) : (start controlSocket).Inv where
  recently := rfl
  early := fun _ _ h => absurd h List.not_mem_nil
  late := fun h => h.elim

/-- An event of a reserved device is handled on the set of its call. -/
def OnTime (s : BaseClient) : ClientInput → Prop
  | .discard => ∀ p ∈ s.handler, p.1 ∈ s.call.serials → s.call.Awaits ∧ p.2 = s.awaitingSerials
  | .reserve | .control _ | .answer _ | .run _ | .handle _ | .remove _ => True

/-- Where the call goes on before `awaiting_serials` is set, with no other
serials. -/
theorem Inv.early_of {s t : BaseClient} (hs : s.Inv) {c : ReserveCall} (hc : s.call = c)
    (hearly : ¬c.Awaits) (hrecently : t.recentlyAddedSerials = s.recentlyAddedSerials)
    (hhandled : t.handled = s.handled) (hcall : ¬t.call.Awaits)
    (hserials : ∀ x ∈ t.call.serials, x ∈ c.serials) : t.Inv := by
  subst hc
  refine ⟨hrecently.trans hs.recently, fun _ x hx => ?_, fun h => absurd h hcall⟩
  rw [hhandled]
  exact hs.early hearly x (hserials x hx)

/-- Where it goes on afterwards. -/
theorem Inv.late_of {s t : BaseClient} (hs : s.Inv) {c : ReserveCall} (hc : s.call = c)
    (hlate : c.Awaits) (hrecently : t.recentlyAddedSerials = s.recentlyAddedSerials)
    (hhandled : t.handled = s.handled) (hawaiting : t.awaiting = s.awaiting)
    (hcall : t.call.Awaits) (hserials : t.call.serials = c.serials) : t.Inv := by
  subst hc
  refine ⟨hrecently.trans hs.recently, fun h => absurd hcall h, fun _ x hx => ?_⟩
  rw [hserials, hhandled]
  exact hs.late hlate x (hawaiting ▸ hx)

theorem inv_stepCall {s t : BaseClient} (hs : s.Inv) {attempt : Bool}
    (h : s.stepCall attempt = some t) : t.Inv := by
  rw [stepCall.eq_def] at h
  split at h
  · cases h
  · cases h
  · cases h
  · cases h
  · cases h
  · rename_i row rows out hcall
    obtain rfl := Option.some.inj h
    refine hs.early_of hcall id rfl rfl id fun x hx => ?_
    rw [ReserveCall.serials, List.map_cons]
    rw [ReserveCall.serials, List.append_assoc] at hx
    exact hx
  · rename_i out hcall
    obtain rfl := Option.some.inj h
    by_cases hout : out = []
    · rw [if_pos hout]
      exact hs.early_of hcall id rfl rfl id fun x hx => absurd hx List.not_mem_nil
    · rw [if_neg hout]
      exact hs.early_of hcall id rfl rfl id fun x hx => List.mem_append_left _ hx
  · rename_i serial serials done hcall
    split at h
    · obtain rfl := Option.some.inj h
      exact hs.early_of hcall id rfl rfl id fun x hx => absurd hx List.not_mem_nil
    · obtain rfl := Option.some.inj h
      exact hs.early_of hcall id rfl rfl id fun x hx => hx
  · rename_i done hcall
    obtain rfl := Option.some.inj h
    exact hs.early_of hcall id rfl rfl id fun x hx => List.mem_append_left _ hx
  · rename_i info serial serials done hcall
    split at h
    · obtain rfl := Option.some.inj h
      refine hs.early_of hcall id rfl rfl id fun x hx => ?_
      rw [ReserveCall.serials, List.append_assoc] at hx
      exact hx
    · obtain rfl := Option.some.inj h
      exact hs.early_of hcall id rfl rfl id fun x hx => absurd hx List.not_mem_nil
  · rename_i serials hcall
    obtain rfl := Option.some.inj h
    refine ⟨hs.recently, fun hnot => absurd trivial hnot, fun _ x hx => ?_⟩
    -- the set is the new one
    have hset : x ∈ serials.toFinset := by
      rw [awaiting] at hx
      simpa only [List.getElem?_concat_length, Option.getD_some] using hx
    have hmem := List.mem_toFinset.mp hset
    have hunheard := hs.early (by rw [hcall]; exact id) x
    rw [hcall] at hunheard
    exact ⟨hmem, hunheard hmem⟩
  · rename_i serials hcall
    split at h
    · cases h
    · split at h
      · rename_i heq
        rw [hs.recently] at heq
        cases heq
      · obtain rfl := Option.some.inj h
        by_cases hempty : s.awaiting = ∅
        · rw [if_pos hempty]
          exact hs.late_of hcall trivial rfl rfl rfl trivial rfl
        · rw [if_neg hempty]
          exact hs.late_of hcall trivial rfl rfl rfl trivial rfl
  · rename_i serials hcall
    split at h
    · cases h
    · obtain rfl := Option.some.inj h
      exact hs.late_of hcall trivial rfl rfl rfl trivial rfl

/-- Discarding on the set of the call. -/
theorem awaiting_discard {s : BaseClient} {serial : String} {k : ℕ} {l : List String} :
    awaiting { s with
      sets := s.sets.modify k fun set => set.erase serial
      handler := none
      handled := l } = if k = s.awaitingSerials then s.awaiting.erase serial else s.awaiting := by
  show ((s.sets.modify k fun set => set.erase serial)[s.awaitingSerials]?).getD ∅ = _
  rw [List.getElem?_modify, awaiting]
  by_cases hk : k = s.awaitingSerials
  · simp only [if_pos hk]
    cases s.sets[s.awaitingSerials]? with
    | none => exact (Finset.erase_empty serial).symm
    | some set => rfl
  · simp only [if_neg hk]
    cases s.sets[s.awaitingSerials]? with
    | none => rfl
    | some set => rfl

theorem inv_discard {s : BaseClient} (hs : s.Inv) {serial : String} {k : ℕ}
    (htime : serial ∈ s.call.serials → s.call.Awaits ∧ k = s.awaitingSerials) :
    Inv { s with
      sets := s.sets.modify k fun set => set.erase serial
      handler := none
      handled := s.handled ++ [serial] } := by
  refine ⟨hs.recently, fun hearly x hx hhandled => ?_, fun hlate x hx => ?_⟩
  · rcases List.mem_append.mp hhandled with hmem | hmem
    · exact hs.early hearly x hx hmem
    · rw [List.mem_singleton.mp hmem] at hx
      exact hearly (htime hx).1
  · rw [awaiting_discard] at hx
    have hold : x ∈ s.awaiting := by
      split at hx
      · exact Finset.mem_of_mem_erase hx
      · exact hx
    obtain ⟨hserial, hunheard⟩ := hs.late hlate x hold
    refine ⟨hserial, fun hhandled => ?_⟩
    rcases List.mem_append.mp hhandled with hmem | hmem
    · exact hunheard hmem
    · -- it has just been discarded from the set of the call
      rw [List.mem_singleton.mp hmem] at hx hserial
      rw [if_pos (htime hserial).2] at hx
      exact Finset.notMem_erase serial s.awaiting hx

theorem inv_step {s t : BaseClient} {i : ClientInput} (hs : s.Inv) (htime : s.OnTime i)
    (h : s.step i = some t) : t.Inv := by
  cases i with
  | reserve =>
    simp only [step] at h
    split at h
    case h_4 => cases h
    all_goals
      obtain rfl := Option.some.inj h
      exact ⟨hs.recently, fun _ x hx => absurd hx List.not_mem_nil, fun hlate => hlate.elim⟩
  | control rows =>
    simp only [step] at h
    split at h
    · obtain rfl := Option.some.inj h
      exact ⟨hs.recently, fun _ x _ => List.not_mem_nil, fun hlate => hlate.elim⟩
    · cases h
  | answer ok =>
    simp only [step] at h
    split at h
    · obtain rfl := Option.some.inj h
      exact ⟨hs.recently, fun _ x hx => absurd hx List.not_mem_nil, fun hlate => hlate.elim⟩
    · rename_i rows hcall
      obtain rfl := Option.some.inj h
      cases ok with
      | true => exact hs.early_of hcall id rfl rfl id fun x hx => hx
      | false => exact hs.early_of hcall id rfl rfl id fun x hx => absurd hx List.not_mem_nil
    · cases h
  | run attempt => exact inv_stepCall hs h
  | handle serial =>
    simp only [step] at h
    split at h
    · cases h
    · obtain rfl := Option.some.inj h
      exact ⟨hs.recently, hs.early, hs.late⟩
  | discard =>
    simp only [step] at h
    split at h
    · cases h
    · rename_i serial k hhandler
      obtain rfl := Option.some.inj h
      exact inv_discard hs (htime (serial, k) hhandler)
  | remove serial =>
    obtain rfl := Option.some.inj h
    exact ⟨hs.recently, hs.early, hs.late⟩

/-- **No initialization is missed that is not early.** In every state of every
run in which the events of reserved devices are handled on the set of their call,
once that set is there and an event has been handled for each of the serials
since their reservation was made, nothing is awaited any more. -/
theorem awaiting_eq_empty {controlSocket : Bool} {is : List ClientInput}
    (htime : machine.Meets OnTime (start controlSocket) is) {s}
    (h : machine.run (start controlSocket) is = some s) (hawaits : s.call.Awaits)
    (hhandled : ∀ serial ∈ s.call.serials, serial ∈ s.handled) : s.awaiting = ∅ := by
  have hs : s.Inv := Machine.invariant_of_meets (I := Inv) (fun _ _ _ => inv_step)
    (inv_start controlSocket) htime h
  refine Finset.eq_empty_of_forall_notMem fun x hx => ?_
  obtain ⟨hserial, hunheard⟩ := hs.late hawaits x hx
  exact hunheard (hhandled x hserial)

/-! ### An event on time, and an early one -/

instance (s : BaseClient) : ∀ i, Decidable (s.OnTime i)
  | .discard => inferInstanceAs (Decidable (∀ p ∈ s.handler,
      p.1 ∈ s.call.serials → s.call.Awaits ∧ p.2 = s.awaitingSerials))
  | .reserve | .control _ | .answer _ | .run _ | .handle _ | .remove _ => .isTrue trivial

/-- A device is reserved, up to the assignment of `awaiting_serials`. -/
def reserved : List ClientInput :=
  [.reserve, .control [⟨"A", "10.0.0.1", 8081⟩], .answer true, .run true, .run true, .run true,
    .run true, .run true]

/-- Its event is handled while the call waits. -/
def heardLate : List ClientInput :=
  reserved ++ [.run true, .run true, .handle "A", .discard]

/-- The worker sends the event as soon as its socket is connected. -/
def heardEarly : List ClientInput :=
  reserved ++ [.handle "A", .discard, .run true, .run true]

/-- A client, as far as the property looks at it. -/
def awaited (s : BaseClient) : ReserveCall × List String × Finset String :=
  (s.call, s.handled, s.awaiting)

theorem heardLate_run :
    (machine.run (start true) heardLate).map awaited = some (.waiting ["A"], ["A"], ∅) := by
  decide

theorem heardEarly_run :
    (machine.run (start true) heardEarly).map awaited = some (.waiting ["A"], ["A"], {"A"}) := by
  decide

theorem heardLate_empty : ∃ s, machine.run (start true) heardLate = some s ∧ s.call.Awaits ∧
    (∀ serial ∈ s.call.serials, serial ∈ s.handled) ∧ s.awaiting = ∅ := by
  obtain ⟨s, hs, hawaited⟩ := Option.map_eq_some_iff.mp heardLate_run
  obtain ⟨hcall, hrest⟩ := Prod.mk.inj hawaited
  obtain ⟨hhandled, -⟩ := Prod.mk.inj hrest
  have hawaits : s.call.Awaits := by
    rw [hcall]
    trivial
  have hall : ∀ serial ∈ s.call.serials, serial ∈ s.handled := by
    rw [hcall, hhandled]
    exact fun serial hserial => hserial
  exact ⟨s, hs, hawaits, hall, awaiting_eq_empty (by decide) hs hawaits hall⟩

/-- **An early event is missed**: the only device has said that it is
initialized, and the call waits for it. -/
theorem early_waits : ∃ s, machine.run (start true) heardEarly = some s ∧ s.call.Awaits ∧
    (∀ serial ∈ s.call.serials, serial ∈ s.handled) ∧ s.awaiting ≠ ∅ := by
  obtain ⟨s, hs, hawaited⟩ := Option.map_eq_some_iff.mp heardEarly_run
  obtain ⟨hcall, hrest⟩ := Prod.mk.inj hawaited
  obtain ⟨hhandled, hawaiting⟩ := Prod.mk.inj hrest
  refine ⟨s, hs, ?_, ?_, ?_⟩
  · rw [hcall]
    trivial
  · rw [hcall, hhandled]
    exact fun serial hserial => hserial
  · rw [hawaiting]
    exact Finset.singleton_ne_empty "A"

end BaseClient

end UsbipIce
