import UsbipIce.Client.Connections

/-!
# Waiting for results

`PulseCountClient.evaluate` sends a batch of bitstreams to every device of the
client, and waits until each of them has reported. It waits on
`remaining_serials`, which it fills from `connection_info` and from which
`_addResult` removes.

Nothing else removes from it. A device that fails or whose reservation ends is
taken out of `connection_info` only, and the serials that `requestBatchWorker`
could not reach are returned by it and dropped. Either way `evaluate` waits for
a report that does not come (`UsbipIce.PulseCountClient.ended_waits`).

Where neither happens to a serial still waited for, all that is waited for is
tracked, has been sent, and has not reported
(`UsbipIce.PulseCountClient.remaining_of_kept`).

Only one thread calls `evaluate`, as the docstring of the class asks for. A step
is a section under `cv` or one of the other locks, or an assignment of the call.
-/

namespace UsbipIce

open Lib

/-! ### Batches -/

/-- The comparison of two keys by `groupby`: the same object, or `__eq__`. It
raises where an info meets `None`. -/
def keyEq : Option ConnectionInfo → Option ConnectionInfo → Option Bool
  | none, none => some true
  | some i, some j => some (decide (i.oid = j.oid) || i.eq j)
  | some _, none | none, some _ => none

/-- A group of `groupby`: its key, and the serials it has so far. -/
abbrev Group := Option ConnectionInfo × List String

/-- The serials of a group that are going to be sent: those with no connection
info are skipped. -/
def Group.toSend : Group → List String
  | (none, _) => []
  | (some _, batch) => batch

/-- Where the call of `evaluate` is. -/
inductive EvaluateCall (ν : Type*) where
  | idle
  /-- `uuid_map` is cleared. -/
  | clearing (paths : List (String × String))
  /-- `results` is cleared. -/
  | emptying (paths : List (String × String))
  /-- At the first `getSerials`. -/
  | filling
  /-- At the assignment of `remaining_serials`. -/
  | assigning (serials : List String)
  /-- `remaining_serials` is filled; at the second `getSerials`. -/
  | listing
  /-- Reading the files of the bitstreams. -/
  | reading (serials : List String)
  /-- In `requestBatchWorker`, with these serials to come and this group begun. -/
  | grouping (serials : List String) (group : Option Group) (failed : List String)
  /-- In the loop, with this group; the iterator has read ahead. -/
  | sending (group : Group) (serials : List String) (ahead : Option Group) (failed : List String)
  /-- The requests are sent; at the section. -/
  | entering
  /-- In `wait_for`. -/
  | waiting
  | returned (values : List (String × Table (Option String × ν) Prod.fst))
  /-- Ended by an exception. -/
  | raised

namespace EvaluateCall

variable {ν : Type*}

/-- The call has filled `remaining_serials`, and not raised since. -/
def Filled : EvaluateCall ν → Prop
  | .listing | .reading _ | .grouping .. | .sending .. | .entering | .waiting | .returned _ => True
  | .idle | .clearing _ | .emptying _ | .filling | .assigning _ | .raised => False

/-- The call has sent its requests. -/
def Requested : EvaluateCall ν → Prop
  | .entering | .waiting | .returned _ => True
  | .idle | .clearing _ | .emptying _ | .filling | .assigning _ | .listing | .reading _
  | .grouping .. | .sending .. | .raised => False

/-- The connection info and the serials of the group about to be sent. -/
def sendingTo : EvaluateCall ν → Option (ConnectionInfo × List String)
  | .sending (some info, batch) .. => some (info, batch)
  | _ => none

end EvaluateCall

/-- A `PulseCountClient`, with the call of `evaluate` under way. -/
structure PulseCountClient (ν : Type*) where
  client : Client
  uuidMap : Table (String × String) Prod.fst
  results : Table (String × Table (String × ν) Prod.fst) Prod.fst
  remainingSerials : List String
  call : EvaluateCall ν
  /-- The serials in the requests sent since `remaining_serials` was filled, and
  those that have reported. Nothing in the source reads these two. -/
  sent : List String
  reported : List String

/-- What a client is driven by. -/
inductive EvaluateInput (ν : Type*) where
  /-- `evaluate` is called; each path comes with the uuid made for it. -/
  | evaluate (paths : List (String × String))
  /-- The call goes on; `ok` says that the files are read, or that the emit
  does not raise. -/
  | run (ok : Bool)
  | results (serial : String) (value : Table (String × ν) Prod.fst)
  | handleReservationEnd (serial : String)
  | handleFailure (serial : String)

namespace PulseCountClient

variable {ν : Type*}

/-- `BaseAPI.getSerials`. -/
def getSerials (s : PulseCountClient ν) : List String := s.client.connectionInfo.keys

/-- What `evaluate` returns. -/
def values (s : PulseCountClient ν) : List (String × Table (Option String × ν) Prod.fst) :=
  s.results.rows.map fun p => (p.1, p.2.rows.foldl
    (fun t q => t.put ((s.uuidMap.find? q.1).map Prod.snd, q.2)) ∅)

/-- `_addResult`. -/
def addResult (s : PulseCountClient ν) (serial : String) (value : Table (String × ν) Prod.fst) :
    PulseCountClient ν :=
  { s with
    results := s.results.put (serial, value)
    -- where it is not there, `remove` raises
    remainingSerials := s.remainingSerials.erase serial
    reported := s.reported ++ [serial] }

/-- `EventServer.sendWorker`: whether there is a socket for the url. -/
def hasSocket (s : PulseCountClient ν) (url : String) : Bool :=
  match s.client.workerSockets.find? url with
  | some (_, socket) => socket
  | none => false

/-- The iterator of `groupby` goes on. -/
def stepGroup (s : PulseCountClient ν) (serials : List String) (group : Option Group)
    (failed : List String) : EvaluateCall ν :=
  match serials, group with
  | [], none => .entering
  | [], some group => .sending group [] none failed
  | serial :: serials, none =>
    .grouping serials (some (s.client.getConnectionInfo serial, [serial])) failed
  | serial :: serials, some group =>
    match keyEq group.1 (s.client.getConnectionInfo serial) with
    | none => .raised
    | some true => .grouping serials (some (group.1, group.2 ++ [serial])) failed
    | some false =>
      .sending group serials (some (s.client.getConnectionInfo serial, [serial])) failed

/-- The call goes on. -/
def stepCall (s : PulseCountClient ν) (ok : Bool) : Option (PulseCountClient ν) :=
  match s.call with
  | .idle | .returned _ | .raised => none
  | .clearing paths =>
    some { s with
      results := ∅
      call := .emptying paths }
  | .emptying paths =>
    some { s with
      uuidMap := paths.foldl Table.put s.uuidMap
      remainingSerials := []
      call := .filling }
  | .filling => some { s with call := .assigning s.getSerials }
  | .assigning serials =>
    some { s with
      remainingSerials := serials
      call := .listing
      sent := []
      reported := [] }
  | .listing => some { s with call := .reading s.getSerials }
  | .reading serials => some { s with call := if ok then .grouping serials none [] else .raised }
  | .grouping serials group failed => some { s with call := s.stepGroup serials group failed }
  -- a group with no connection info is logged and skipped
  | .sending (none, _) serials ahead failed =>
    some { s with call := .grouping serials ahead failed }
  | .sending (some info, batch) serials ahead failed =>
    if s.hasSocket info.url then
      if ok then
        some { s with
          call := .grouping serials ahead failed
          sent := s.sent ++ batch }
      else some { s with call := .raised }
    else some { s with call := .grouping serials ahead (failed ++ batch) }
  | .entering =>
    some { s with call := if s.remainingSerials = [] then .returned s.values else .waiting }
  | .waiting =>
    if s.remainingSerials = [] then some { s with call := .returned s.values } else none

/-- One step. -/
def step (s : PulseCountClient ν) : EvaluateInput ν → Option (PulseCountClient ν)
  | .evaluate paths =>
    match s.call with
    | .idle | .returned _ | .raised =>
      some { s with
        uuidMap := ∅
        call := .clearing paths }
    | _ => none
  | .run ok => s.stepCall ok
  | .results serial value => some (s.addResult serial value)
  | .handleReservationEnd serial | .handleFailure serial =>
    some { s with client := s.client.removeSerial serial }

variable (ν) in
/-- A client as a machine. -/
def machine : Machine (PulseCountClient ν) (EvaluateInput ν) := ⟨step⟩

/-! ### What is waited for -/

/-- The serials that are waited for, or are about to be. -/
def waitedFor (s : PulseCountClient ν) : List String :=
  match s.call with
  | .assigning serials => serials
  | .listing | .reading _ | .grouping .. | .sending .. | .entering | .waiting | .returned _ =>
    s.remainingSerials
  | .idle | .clearing _ | .emptying _ | .filling | .raised => []

/-- The serials that the call is still going to send. -/
def due (s : PulseCountClient ν) : List String :=
  match s.call with
  | .assigning _ | .listing => s.getSerials
  | .reading serials => serials
  | .grouping serials group _ => (group.map Group.toSend).getD [] ++ serials
  | .sending group serials ahead _ =>
    Group.toSend group ++ ((ahead.map Group.toSend).getD [] ++ serials)
  | .idle | .clearing _ | .emptying _ | .filling | .entering | .waiting | .returned _ | .raised =>
    []

/-- **The invariant**, of runs in which nothing that is waited for is lost: what
is waited for is tracked, has not reported, and has been sent or is going to
be. -/
structure Inv (s : PulseCountClient ν) : Prop where
  nodup : s.waitedFor.Nodup
  tracked : ∀ serial ∈ s.waitedFor, serial ∈ s.getSerials
  accounted : s.call.Filled → ∀ serial ∈ s.remainingSerials,
    serial ∉ s.reported ∧ (serial ∈ s.due ∨ serial ∈ s.sent)

/-- No serial that is waited for is lost: events do not untrack one, and there is
a socket for a group that has one. -/
def Keeps (s : PulseCountClient ν) : EvaluateInput ν → Prop
  | .handleReservationEnd serial | .handleFailure serial => serial ∉ s.waitedFor
  | .run _ => ∀ p ∈ s.call.sendingTo, (∃ serial ∈ p.2, serial ∈ s.remainingSerials) →
      s.hasSocket p.1.url = true
  | .evaluate _ | .results .. => True

theorem waitedFor_of_filled {s : PulseCountClient ν} (h : s.call.Filled) :
    s.waitedFor = s.remainingSerials := by
  rw [waitedFor]
  cases hcall : s.call with
  | idle | clearing | emptying | filling | assigning | raised =>
    rw [hcall] at h
    exact h.elim
  | _ => rfl

theorem filled_of_requested {s : PulseCountClient ν} (h : s.call.Requested) :
    s.call.Filled ∧ s.due = [] := by
  rw [due]
  cases hcall : s.call with
  | entering | waiting | returned => exact ⟨trivial, rfl⟩
  | _ =>
    rw [hcall] at h
    exact h.elim

/-! ### Events -/

theorem inv_remove {s : PulseCountClient ν} (hs : s.Inv) {serial : String}
    (hkeep : serial ∉ s.waitedFor) : Inv { s with client := s.client.removeSerial serial } := by
  have hne : ∀ x ∈ s.waitedFor, x ≠ serial := fun x hx heq => hkeep (heq ▸ hx)
  refine ⟨hs.nodup, fun x hx => ?_, fun hfilled x hx => ?_⟩
  · exact Client.keys_removeSerial.mpr ⟨hs.tracked x hx, hne x hx⟩
  · have hfilled : s.call.Filled := hfilled
    obtain ⟨hreported, hdue⟩ := hs.accounted hfilled x hx
    refine ⟨hreported, hdue.imp_left fun hdue => ?_⟩
    have hx' : x ∈ s.waitedFor := by
      rw [waitedFor_of_filled hfilled]
      exact hx
    -- what is not listed yet is still there
    rw [due] at hdue ⊢
    cases hcall : s.call with
    | listing | assigning =>
      simp only [hcall] at hdue ⊢
      exact Client.keys_removeSerial.mpr ⟨hdue, hne x hx'⟩
    | _ =>
      simp only [hcall] at hdue ⊢
      exact hdue

theorem inv_addResult {s : PulseCountClient ν} (hs : s.Inv) (serial : String)
    (value : Table (String × ν) Prod.fst) : (s.addResult serial value).Inv := by
  have hwaited : (s.addResult serial value).waitedFor.Sublist s.waitedFor := by
    rw [waitedFor, waitedFor]
    cases hcall : s.call with
    | idle | clearing | emptying | filling | assigning | raised =>
      simp only [addResult, hcall]
      exact List.Sublist.refl _
    | _ =>
      simp only [addResult, hcall]
      exact List.erase_sublist
  refine ⟨hs.nodup.sublist hwaited, fun x hx => hs.tracked x (hwaited.subset hx), fun hf x hx => ?_⟩
  have hf : s.call.Filled := hf
  have hnodup : s.remainingSerials.Nodup := waitedFor_of_filled hf ▸ hs.nodup
  obtain ⟨hne, hx⟩ := hnodup.mem_erase_iff.mp hx
  obtain ⟨hreported, hdue⟩ := hs.accounted hf x hx
  refine ⟨fun hmem => ?_, hdue⟩
  rcases List.mem_append.mp hmem with hmem | hmem
  · exact hreported hmem
  · exact hne (List.mem_singleton.mp hmem)

/-! ### The call -/

/-- Where the call goes on with what is waited for, or raises. -/
theorem Inv.goesOn {s : PulseCountClient ν} (hs : s.Inv) {c c' : EvaluateCall ν}
    (hcall : s.call = c)
    (hfilled : c.Filled) {l : List String} (hc' : c'.Filled ∨ c' = .raised)
    (hdue : c'.Filled → ∀ serial ∈ s.remainingSerials, serial ∈ s.getSerials →
      serial ∈ s.due ∨ serial ∈ s.sent → serial ∈ due { s with call := c' } ∨ serial ∈ l) :
    Inv { s with
      call := c'
      sent := l } := by
  subst hcall
  have hwaited := waitedFor_of_filled hfilled
  have hnodup : s.remainingSerials.Nodup := hwaited ▸ hs.nodup
  have htracked : ∀ x ∈ s.remainingSerials, x ∈ s.getSerials := fun x hx =>
    hs.tracked x (hwaited ▸ hx)
  rcases hc' with hc' | rfl
  · have hwaited' : waitedFor { s with
        call := c'
        sent := l } = s.remainingSerials := waitedFor_of_filled hc'
    refine ⟨?_, fun x hx => htracked x (hwaited' ▸ hx), fun _ x hx => ?_⟩
    · rw [hwaited']
      exact hnodup
    obtain ⟨hreported, hor⟩ := hs.accounted hfilled x hx
    exact ⟨hreported, hdue hc' x hx (htracked x hx) hor⟩
  · exact ⟨List.nodup_nil, fun x hx => absurd hx List.not_mem_nil, fun hf => hf.elim⟩

/-- Where it goes on with the same serials to send. -/
theorem Inv.sameDue {s : PulseCountClient ν} (hs : s.Inv) {c c' : EvaluateCall ν}
    (hcall : s.call = c) (hfilled : c.Filled) (hfilled' : c'.Filled)
    (hdue : due { s with call := c' } = s.due) : Inv { s with call := c' } :=
  hs.goesOn hcall hfilled (Or.inl hfilled') fun _ x _ _ hor => by
    rw [hdue]
    exact hor

theorem Inv.raises {s : PulseCountClient ν} (hs : s.Inv) {c : EvaluateCall ν} (hcall : s.call = c)
    (hfilled : c.Filled) : Inv { s with call := .raised } :=
  hs.goesOn hcall hfilled (Or.inr rfl) fun hf => hf.elim

/-- A tracked serial that is read is going to be sent. -/
theorem mem_toSend_fetched {s : PulseCountClient ν} {serial : String}
    (h : serial ∈ s.getSerials) :
    serial ∈ Group.toSend (s.client.getConnectionInfo serial, [serial]) := by
  obtain ⟨p, hp, rfl⟩ := Table.mem_keys.mp h
  rw [Client.getConnectionInfo_eq_some.mpr hp]
  exact List.mem_singleton_self _

/-- What equals an info is one. -/
theorem isSome_of_keyEq {k : Option ConnectionInfo} {info : ConnectionInfo}
    (h : keyEq k (some info) = some true) : k.isSome := by
  cases k with
  | none => cases h
  | some i => rfl

/-- A serial stays in its group when another is added. -/
theorem mem_toSend_append {group : Group} {batch : List String} {x : String}
    (h : x ∈ Group.toSend group) : x ∈ Group.toSend (group.1, group.2 ++ batch) := by
  obtain ⟨k, b⟩ := group
  cases k with
  | none => cases h
  | some info => exact List.mem_append_left _ h

/-- **The iterator loses no tracked serial**, unless it raises. -/
theorem mem_due_stepGroup {s t : PulseCountClient ν} {serials : List String} {group : Option Group}
    {failed : List String} (ht : t.call = s.stepGroup serials group failed)
    (hfilled : t.call.Filled)
    {x : String} (htracked : x ∈ s.getSerials)
    (h : x ∈ (group.map Group.toSend).getD [] ++ serials) : x ∈ t.due := by
  rw [stepGroup.eq_def] at ht
  rw [due]
  cases serials with
  | nil =>
    cases group with
    | none => cases h
    | some group =>
      rw [List.append_nil] at h
      simp only [ht]
      exact List.mem_append_left _ h
  | cons serial serials =>
    cases group with
    | none =>
      simp only [ht]
      rcases List.mem_cons.mp h with rfl | h
      · exact List.mem_append_left _ (mem_toSend_fetched htracked)
      · exact List.mem_append_right _ h
    | some group =>
      cases hkey : keyEq group.1 (s.client.getConnectionInfo serial) with
      | none =>
        simp only [hkey] at ht
        rw [ht] at hfilled
        exact hfilled.elim
      | some same =>
        rcases List.mem_append.mp h with hgroup | h
        · cases same with
          | true =>
            simp only [hkey] at ht
            simp only [ht]
            exact List.mem_append_left _ (mem_toSend_append hgroup)
          | false =>
            simp only [hkey] at ht
            simp only [ht]
            exact List.mem_append_left _ hgroup
        · cases same with
          | true =>
            simp only [hkey] at ht
            simp only [ht]
            rcases List.mem_cons.mp h with rfl | h
            · -- its info has just been compared with the key of the group
              refine List.mem_append_left _ ?_
              obtain ⟨p, hp, rfl⟩ := Table.mem_keys.mp htracked
              rw [Client.getConnectionInfo_eq_some.mpr hp] at hkey
              obtain ⟨info, hinfo⟩ := Option.isSome_iff_exists.mp (isSome_of_keyEq hkey)
              rw [hinfo]
              exact List.mem_append_right _ (List.mem_singleton_self _)
            · exact List.mem_append_right _ h
          | false =>
            simp only [hkey] at ht
            simp only [ht]
            refine List.mem_append_right _ ?_
            rcases List.mem_cons.mp h with rfl | h
            · exact List.mem_append_left _ (mem_toSend_fetched htracked)
            · exact List.mem_append_right _ h

/-- The iterator goes on in the loop, or raises. -/
theorem filled_stepGroup {s : PulseCountClient ν} (serials : List String) (group : Option Group)
    (failed : List String) : (s.stepGroup serials group failed).Filled ∨
      s.stepGroup serials group failed = .raised := by
  rw [stepGroup.eq_def]
  split
  · exact Or.inl trivial
  · exact Or.inl trivial
  · exact Or.inl trivial
  · split
    · exact Or.inr rfl
    · exact Or.inl trivial
    · exact Or.inl trivial

theorem inv_stepCall {s t : PulseCountClient ν} (hs : s.Inv) {ok : Bool} (hkeep : s.Keeps (.run ok))
    (h : s.stepCall ok = some t) : t.Inv := by
  rw [stepCall.eq_def] at h
  split at h
  · cases h
  · cases h
  · cases h
  · obtain rfl := Option.some.inj h
    exact ⟨List.nodup_nil, fun x hx => absurd hx List.not_mem_nil, fun hf => hf.elim⟩
  · obtain rfl := Option.some.inj h
    exact ⟨List.nodup_nil, fun x hx => absurd hx List.not_mem_nil, fun hf => hf.elim⟩
  · -- the list is made
    obtain rfl := Option.some.inj h
    exact ⟨s.client.connectionInfo.nodup, fun x hx => hx, fun hf => hf.elim⟩
  · rename_i serials hcall
    obtain rfl := Option.some.inj h
    have hwaited : s.waitedFor = serials := by rw [waitedFor, hcall]
    refine ⟨hwaited ▸ hs.nodup, fun x hx => hs.tracked x (hwaited ▸ hx), fun _ x hx => ?_⟩
    exact ⟨List.not_mem_nil, Or.inl (hs.tracked x (hwaited ▸ hx))⟩
  · rename_i hcall
    obtain rfl := Option.some.inj h
    exact hs.sameDue hcall trivial trivial (by rw [due, due, hcall])
  · rename_i serials hcall
    obtain rfl := Option.some.inj h
    cases ok with
    | true => exact hs.sameDue hcall trivial trivial (by rw [due, due, hcall]; rfl)
    | false => exact hs.raises hcall trivial
  · rename_i serials group failed hcall
    obtain rfl := Option.some.inj h
    have hdue : s.due = (group.map Group.toSend).getD [] ++ serials := by rw [due, hcall]
    refine hs.goesOn hcall trivial
      (filled_stepGroup serials group failed) fun hf x _ htracked hor => ?_
    rw [hdue] at hor
    exact hor.imp_left (mem_due_stepGroup rfl hf htracked)
  · rename_i batch serials ahead failed hcall
    obtain rfl := Option.some.inj h
    exact hs.sameDue hcall trivial trivial (by rw [due, due, hcall]; rfl)
  · rename_i info batch serials ahead failed hcall
    have hdue : s.due = batch ++ ((ahead.map Group.toSend).getD [] ++ serials) := by
      rw [due, hcall]
      rfl
    split at h
    · split at h
      · obtain rfl := Option.some.inj h
        refine hs.goesOn hcall trivial (Or.inl trivial) fun _ x _ _ hor => ?_
        rw [hdue] at hor
        rcases hor with hor | hsent
        · rcases List.mem_append.mp hor with hbatch | hrest
          · exact Or.inr (List.mem_append_right _ hbatch)
          · exact Or.inl hrest
        · exact Or.inr (List.mem_append_left _ hsent)
      · obtain rfl := Option.some.inj h
        exact hs.raises hcall trivial
    · rename_i hsocket
      obtain rfl := Option.some.inj h
      refine hs.goesOn hcall trivial (Or.inl trivial) fun _ x hx _ hor => ?_
      rw [hdue] at hor
      refine hor.imp_left fun hor => ?_
      rcases List.mem_append.mp hor with hbatch | hrest
      · have hto : (info, batch) ∈ s.call.sendingTo := by
          rw [hcall]
          rfl
        exact absurd (hkeep _ hto ⟨x, hbatch, hx⟩) hsocket
      · exact hrest
  · rename_i hcall
    obtain rfl := Option.some.inj h
    by_cases hnone : s.remainingSerials = []
    · rw [if_pos hnone]
      exact hs.sameDue hcall trivial trivial (by rw [due, due, hcall])
    · rw [if_neg hnone]
      exact hs.sameDue hcall trivial trivial (by rw [due, due, hcall])
  · rename_i hcall
    split at h
    · obtain rfl := Option.some.inj h
      exact hs.sameDue hcall trivial trivial (by rw [due, due, hcall])
    · cases h

theorem inv_step {s t : PulseCountClient ν} {i : EvaluateInput ν} (hs : s.Inv) (hkeep : s.Keeps i)
    (h : s.step i = some t) : t.Inv := by
  cases i with
  | evaluate paths =>
    simp only [step] at h
    split at h
    case h_4 => cases h
    all_goals
      obtain rfl := Option.some.inj h
      exact ⟨List.nodup_nil, fun x hx => absurd hx List.not_mem_nil, fun hf => hf.elim⟩
  | run ok => exact inv_stepCall hs hkeep h
  | results serial value =>
    obtain rfl := Option.some.inj h
    exact inv_addResult hs serial value
  | handleReservationEnd serial =>
    obtain rfl := Option.some.inj h
    exact inv_remove hs hkeep
  | handleFailure serial =>
    obtain rfl := Option.some.inj h
    exact inv_remove hs hkeep

/-- **What is waited for may come.** In every run, from any client with no call
under way, in which no serial that is waited for is lost, once the requests have
been sent each serial still in `remaining_serials` is tracked, has been sent, and
has not reported; so when there is no such serial, the wait is over. -/
theorem remaining_of_kept {s t : PulseCountClient ν} {is : List (EvaluateInput ν)}
    (hs : s.call = .idle) (hkept : (machine ν).Meets Keeps s is)
    (h : (machine ν).run s is = some t) (hrequested : t.call.Requested) :
    (∀ serial ∈ t.remainingSerials,
      serial ∈ t.getSerials ∧ serial ∈ t.sent ∧ serial ∉ t.reported) ∧
      ((∀ serial ∈ t.sent, serial ∈ t.getSerials → serial ∈ t.reported) →
        t.remainingSerials = []) := by
  have hstart : s.Inv := by
    have hwaited : s.waitedFor = [] := by rw [waitedFor, hs]
    refine ⟨hwaited ▸ List.nodup_nil, fun x hx => ?_, fun hf => ?_⟩
    · rw [hwaited] at hx
      cases hx
    · rw [hs] at hf
      exact hf.elim
  have ht : t.Inv := Machine.invariant_of_meets (I := Inv) (fun _ _ _ => inv_step) hstart hkept h
  obtain ⟨hf, hdue⟩ := filled_of_requested hrequested
  have hall : ∀ x ∈ t.remainingSerials, x ∈ t.getSerials ∧ x ∈ t.sent ∧ x ∉ t.reported := by
    intro x hx
    obtain ⟨hreported, hor⟩ := ht.accounted hf x hx
    rw [hdue] at hor
    exact ⟨ht.tracked x (waitedFor_of_filled hf ▸ hx), hor.resolve_left List.not_mem_nil, hreported⟩
  refine ⟨hall, fun hover => List.eq_nil_iff_forall_not_mem.mpr fun x hx => ?_⟩
  obtain ⟨htracked, hsent, hreported⟩ := hall x hx
  exact hreported (hover x hsent htracked)

/-! ### A device that reports, and one that is lost -/

instance (s : PulseCountClient ν) : ∀ i, Decidable (s.Keeps i)
  | .handleReservationEnd serial | .handleFailure serial =>
    inferInstanceAs (Decidable (serial ∉ s.waitedFor))
  | .run _ => inferInstanceAs (Decidable (∀ p ∈ s.call.sendingTo,
      (∃ serial ∈ p.2, serial ∈ s.remainingSerials) → s.hasSocket p.1.url = true))
  | .evaluate _ | .results .. => .isTrue trivial

/-- A client with one device. -/
def oneDevice : PulseCountClient ℕ where
  client := Client.start.reserve [⟨"A", "10.0.0.1", 8081⟩]
  uuidMap := ∅
  results := ∅
  remainingSerials := []
  call := .idle
  sent := []
  reported := []

/-- Two bitstreams are sent, up to the wait. -/
def sendsTwo : List (EvaluateInput ℕ) :=
  .evaluate [("u", "a.bit"), ("v", "b.bit")] :: List.replicate 11 (.run true)

/-- The reservation ends while the client waits. -/
def endsWaiting : List (EvaluateInput ℕ) := sendsTwo ++ [.handleReservationEnd "A"]

/-- A client, as far as the property looks at it. -/
def outlook (s : PulseCountClient ν) :
    Bool × List String × List String × List String × List String :=
  (match s.call with
    | .waiting => true
    | _ => false, s.remainingSerials, s.getSerials, s.sent, s.reported)

theorem outlook_eq {s : PulseCountClient ν} {remaining tracked sent reported : List String}
    (h : s.outlook = (true, remaining, tracked, sent, reported)) :
    s.call.Requested ∧ s.remainingSerials = remaining ∧ s.getSerials = tracked ∧ s.sent = sent ∧
      s.reported = reported := by
  obtain ⟨hwaiting, hrest⟩ := Prod.mk.inj h
  obtain ⟨hremaining, hrest⟩ := Prod.mk.inj hrest
  obtain ⟨htracked, hrest⟩ := Prod.mk.inj hrest
  obtain ⟨hsent, hreported⟩ := Prod.mk.inj hrest
  refine ⟨?_, hremaining, htracked, hsent, hreported⟩
  split at hwaiting
  · rename_i hcall
    rw [hcall]
    trivial
  · cases hwaiting

theorem sendsTwo_run : ((machine ℕ).run oneDevice sendsTwo).map outlook =
    some (true, ["A"], ["A"], ["A"], []) := by
  decide

theorem endsWaiting_run : ((machine ℕ).run oneDevice endsWaiting).map outlook =
    some (true, ["A"], [], ["A"], []) := by
  decide

theorem sendsTwo_kept : ∃ s, (machine ℕ).run oneDevice sendsTwo = some s ∧ s.call.Requested ∧
    s.remainingSerials ≠ [] ∧ ∀ serial ∈ s.remainingSerials,
      serial ∈ s.getSerials ∧ serial ∈ s.sent ∧ serial ∉ s.reported := by
  obtain ⟨s, hs, houtlook⟩ := Option.map_eq_some_iff.mp sendsTwo_run
  obtain ⟨hrequested, hremaining, -⟩ := outlook_eq houtlook
  refine ⟨s, hs, hrequested, ?_, (remaining_of_kept rfl (by decide) hs hrequested).1⟩
  rw [hremaining]
  exact List.cons_ne_nil _ _

/-- **A device that is lost is waited for**: it is not tracked any more. -/
theorem ended_waits : ∃ s, (machine ℕ).run oneDevice endsWaiting = some s ∧ s.call.Requested ∧
    ¬∀ serial ∈ s.remainingSerials,
      serial ∈ s.getSerials ∧ serial ∈ s.sent ∧ serial ∉ s.reported := by
  obtain ⟨s, hs, houtlook⟩ := Option.map_eq_some_iff.mp endsWaiting_run
  obtain ⟨hrequested, hremaining, htracked, -⟩ := outlook_eq houtlook
  refine ⟨s, hs, hrequested, fun hall => ?_⟩
  have hmem : "A" ∈ s.getSerials := (hall "A" (hremaining ▸ List.mem_singleton_self _)).1
  rw [htracked] at hmem
  cases hmem

end PulseCountClient

end UsbipIce
