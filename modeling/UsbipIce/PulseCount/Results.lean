import Mathlib.Algebra.Order.Sub.Basic
import Mathlib.Data.Multiset.OrderedMonoid
import UsbipIce.EventSender.Serial
import UsbipIce.PulseCount.Host

/-!
# What becomes of the results

The run thread of `PulseCountState` hands its results to
`PulseCountEventSender.finished`, logs a failure where that answers `False`, and
forgets them in either case. So `finished` should answer `True` only for results
that are on their way to the client.

Here `UsbipIce.PulseCount.Host` and `UsbipIce.EventSender` run side by side, with
the call of `finished` between them: it serialises the event and looks the client
up, and then takes the two sections of `sendClient`, while other calls, sockets
and timers go on. A call is honest (`UsbipIce.PulseCount.Finished.Honest`) where
what it answers is what it has done. The calls of a run are honest exactly if
each of them fails to serialise its event or finds a client
(`UsbipIce.PulseCount.Board.honest_iff`): with no reservation, or no answer from
the database, `finished` answers `True`, and the results are gone
(`UsbipIce.PulseCount.Board.unreserved_lost`).
-/

namespace UsbipIce.PulseCount

open Lib Database

/-! ### The call of `finished` -/

/-- A value in a results event. -/
inductive EventValue (ν : Type*) where
  | text (s : String)
  | results (r : Results ν)

/-- The event of `PulseCountEventSender.finished`, as it is serialised. -/
def resultsEvent {ν : Type*} (serial : String) (pulses : Results ν) : Package (EventValue ν) :=
  packageContents .text serial
    ⟨[("event", .text "results"), ("results", .results pulses)], by simp⟩

/-- The event in full: `__packageContents` adds the serial. -/
theorem resultsEvent_eq {ν : Type*} (serial : String) (pulses : Results ν) :
    resultsEvent serial pulses =
      ⟨serial, ⟨[("event", .text "results"), ("results", .results pulses),
        ("serial", .text serial)], by simp⟩⟩ :=
  rfl

/-- A call of `finished`: what it is given, who holds the device at the lookup,
the text of the event if there is one, what the call has appended to the queues
of the sessions, and what it returns. -/
structure Finished (ν : Type*) where
  results : Results ν
  holder : Option String
  contents : Option String
  queued : Multiset (String × String)
  returned : Returned

/-- **What `finished` answers is true**: `True`, and the event is appended to the
queue of the session of the client that holds the device; or `False`. -/
def Finished.Honest {ν : Type*} (c : Finished ν) : Prop :=
  (c.returned = .bool true ∧ ∃ client text, c.holder = some client ∧ c.contents = some text ∧
    c.queued = {(client, text)}) ∨ c.returned = .bool false

/-- What a call that has returned was about: the text is that of its own results, and
it has appended nothing, or this text for the client that held the device. -/
structure Finished.Told {ν : Type*} (dumps : Package (EventValue ν) → Option String)
    (serial : String) (c : Finished ν) : Prop where
  contents : c.contents = dumps (resultsEvent serial c.results)
  queued : c.queued = 0 ∨ ∃ client text, c.holder = some client ∧ c.contents = some text ∧
    c.queued = {(client, text)}

/-- A `PulseCountState` and the event sender of its worker. -/
structure Board (ν S : Type*) where
  host : Host ν
  sender : EventSender String String S
  /-- The call of `finished` under way, in `sendClient`. -/
  call : Option (SenderTask String String S × Finished ν)
  /-- The calls of `finished` that have returned. -/
  finished : List (Finished ν)

/-- What happens on a board. -/
inductive BoardInput (δ S : Type*) where
  /-- Something goes on in the `PulseCountState`, other than `finished`. -/
  | host (i : HostInput δ)
  /-- Something else goes on in the event sender. -/
  | sender (i : SenderInput String String S)
  /-- The run thread calls `finished`, and the lookup finds the database so. -/
  | finished (db : Option Database)
  /-- The call of `sendClient` goes on. -/
  | sendClient

namespace Board

variable {ν δ S : Type*}

/-- The run thread is where it calls `finished`. -/
def AtFinished (s : Host ν) : Prop := s.run = .finish ∧ s.bitstreamQueue = []

/-- The step is the section of `queue` under `cv`. -/
def takesCv (s : Host ν) : HostInput δ → Bool
  | .queue k => (s.calls[k]?).any fun c => c.contents[c.written]?.isNone
  | .request .. | .run | .receive _ | .read | .handleExit => false

/-- The run thread goes on. -/
def runs : HostInput δ → Bool
  | .run => true
  | .request .. | .queue _ | .receive _ | .read | .handleExit => false

/-- `finished` returns, and the section of the run thread is over. -/
def returns (s : Board ν S) (c : Finished ν) : Option (Board ν S) :=
  s.host.stepRun.map fun host =>
    { s with
      host := host
      call := none
      finished := s.finished ++ [c] }

variable [DecidableEq S] (dumps : Package (EventValue ν) → Option String) (serial : String)
  (search : δ → List (Signal ν))

/-- What a call of `finished` does. -/
def perform (pulses : Results ν) (db : Option Database) : Performed :=
  sendDeviceEvent (packaged (dumps (resultsEvent serial pulses))) (getReservationClientId db serial)

/-- One step of the board. -/
def step (s : Board ν S) : BoardInput δ S → Option (Board ν S)
  | .host i =>
    match s.host.run, s.host.bitstreamQueue, runs i with
    | .finish, [], true => none
    | _, _, _ =>
      -- `run` holds `cv` during the call
      if s.call.isSome ∧ takesCv s.host i then none
      else (s.host.step search i).map fun host => { s with host := host }
  | .sender i => (s.sender.step i).map fun sender => { s with sender := sender }
  | .finished db =>
    match s.call, s.host.run, s.host.bitstreamQueue with
    | none, .finish, [] =>
      let done := perform dumps serial s.host.results db
      let c : Finished ν :=
        ⟨s.host.results, db.bind fun db => db.holder serial,
          dumps (resultsEvent serial s.host.results), 0, done.returned⟩
      match done.client with
      | some (client, text) => some { s with call := some (.sendClient client text none, c) }
      | none => s.returns c
    | _, _, _ => none
  | .sendClient =>
    match s.call with
    | none => none
    | some (task, c) =>
      let next := s.sender.stepTask task
      let c' := { c with queued := c.queued + (next.1.appended - s.sender.appended) }
      match next.2 with
      | some task' => some { s with sender := next.1, call := some (task', c') }
      | none => ({ s with sender := next.1 } : Board ν S).returns c'

/-- The board as a machine. -/
def machine : Machine (Board ν S) (BoardInput δ S) := ⟨step dumps serial search⟩

/-- A new `PulseCountState`, and an event sender that has not sent anything. -/
def start : Board ν S := ⟨.start, .start, none, []⟩

/-- **What the lookup should find**: where `finished` is called, the event cannot
be serialised, or a client with a name holds the device. -/
def Answered (s : Board ν S) : BoardInput δ S → Prop
  | .finished db => s.call = none → AtFinished s.host →
      (∀ text ∈ dumps (resultsEvent serial s.host.results), text = "") ∨
        ∃ client, client ≠ "" ∧ (db.bind fun db => db.holder serial) = some client
  | .host _ | .sender _ | .sendClient => True

/-- **What a results event needs**: where `finished` is called, the event can be
serialised, and a client with a name holds the device. -/
def Found (s : Board ν S) : BoardInput δ S → Prop
  | .finished db => s.call = none → AtFinished s.host →
      (∃ text, text ≠ "" ∧ dumps (resultsEvent serial s.host.results) = some text) ∧
        ∃ client, client ≠ "" ∧ (db.bind fun db => db.holder serial) = some client
  | .host _ | .sender _ | .sendClient => True

/-! ### What the steps do -/

variable {dumps serial search} {s t : Board ν S}

/-- Results are handed over in the section of `finished` only. -/
theorem handed_of_step {s t : Host ν} {i : HostInput δ} (h : s.step search i = some t)
    (hnot : AtFinished s → runs i = false) : t.handed = s.handed := by
  cases Host.rule_of_step h with
  | ready hrun hr =>
    obtain ⟨run, uploads, heq⟩ := Host.uploadFrom_eq _ _ _ _
    rw [heq]
  | chunk hrun =>
    obtain ⟨run, uploads, heq⟩ := Host.uploadFrom_eq _ _ _ _
    rw [heq]
  | send hrun hqueue => exact absurd (hnot ⟨hrun, hqueue⟩) (by simp [runs])
  | _ => rfl

/-- What goes on beside the run thread, outside `cv`. -/
theorem frame_of_step {s t : Host ν} {i : HostInput δ} (h : s.step search i = some t)
    (hrun : runs i = false) (hcv : takesCv s i = false) :
    t.run = s.run ∧ t.bitstreamQueue = s.bitstreamQueue ∧ t.results = s.results := by
  cases Host.rule_of_step h with
  | append hk hc => simp [takesCv, hk, hc] at hcv
  | request | write | raise | receive | signal | exit | joinRun => exact ⟨rfl, rfl, rfl⟩
  | _ => cases hrun

theorem step_host {i : HostInput δ} (h : s.step dumps serial search (.host i) = some t) :
    ∃ host, s.host.step search i = some host ∧ t = { s with host := host } ∧
      (AtFinished s.host → runs i = false) ∧ (s.call.isSome = true → takesCv s.host i = false) := by
  rw [step] at h
  split at h
  · cases h
  · rename_i hnot
    split at h
    · cases h
    · rename_i hcv
      obtain ⟨host, hhost, rfl⟩ := Option.map_eq_some_iff.mp h
      refine ⟨host, hhost, rfl, fun hat => ?_, fun hcall => ?_⟩
      · exact Bool.eq_false_iff.mpr fun hruns => hnot hat.1 hat.2 hruns
      · exact Bool.eq_false_iff.mpr fun htakes => hcv ⟨hcall, htakes⟩

variable (dumps serial) in
/-- **What `finished` does when it is called**: it returns at once, or goes on
to `sendClient` with the client that holds the device. -/
theorem perform_cases (pulses : Results ν) (db : Option Database) :
    ((perform dumps serial pulses db).client = none ∧
      (perform dumps serial pulses db).returned = .bool false ∧
      ∀ text ∈ dumps (resultsEvent serial pulses), text = "") ∨
    ((perform dumps serial pulses db).client = none ∧
      (perform dumps serial pulses db).returned = .bool true ∧
      (∃ text, dumps (resultsEvent serial pulses) = some text ∧ text ≠ "") ∧
      ∀ client, (db.bind fun db => db.holder serial) = some client → client = "") ∨
    ∃ client text, (perform dumps serial pulses db).client = some (client, text) ∧
      (perform dumps serial pulses db).returned = .bool true ∧
      dumps (resultsEvent serial pulses) = some text ∧ text ≠ "" ∧ client ≠ "" ∧
      (db.bind fun db => db.holder serial) = some client := by
  rw [perform, sendDeviceEvent_eq, getReservationClientId_eq]
  cases hdumps : dumps (resultsEvent serial pulses) with
  | none => exact Or.inl ⟨rfl, rfl, by simp⟩
  | some text =>
    by_cases htext : text = ""
    · exact Or.inl ⟨by simp [htext], by simp [htext], by simpa using htext⟩
    · dsimp only
      rw [if_neg htext]
      refine Or.inr ?_
      cases hholder : db.bind fun db => db.holder serial with
      | none =>
        refine Or.inl ⟨?_, rfl, ⟨text, rfl, htext⟩, by simp⟩
        dsimp only
        split <;> rfl
      | some client =>
        by_cases hclient : client = ""
        · refine Or.inl ⟨?_, rfl, ⟨text, rfl, htext⟩, by simpa using hclient.symm⟩
          simp [sendSerial, hclient]
        · refine Or.inr ⟨client, text, ?_, rfl, rfl, htext, hclient, rfl⟩
          simp [sendSerial, hclient]

omit [DecidableEq S] in
/-- The section of `finished` is over. -/
theorem returns_eq (h : AtFinished s.host) (c : Finished ν) :
    s.returns c = some
      { s with
        host :=
          { s.host with
            handed := s.host.handed ++ [s.host.results]
            results := ∅
            run := .loop }
        call := none
        finished := s.finished ++ [c] } := by
  rw [returns, Host.stepRun.eq_def, h.1]
  dsimp only
  rw [if_pos h.2]
  rfl

/-- A call as it is before its `sendClient`, on the database of the lookup. -/
def called (dumps : Package (EventValue ν) → Option String) (serial : String) (pulses : Results ν)
    (db : Option Database) : Finished ν :=
  ⟨pulses, db.bind fun db => db.holder serial, dumps (resultsEvent serial pulses), 0,
    (perform dumps serial pulses db).returned⟩

theorem step_finished {db : Option Database}
    (h : s.step dumps serial search (.finished db) = some t) :
    s.call = none ∧ AtFinished s.host ∧
      (((perform dumps serial s.host.results db).client = none ∧
          s.returns (called dumps serial s.host.results db) = some t) ∨
        ∃ client text, (perform dumps serial s.host.results db).client = some (client, text) ∧
          t = { s with
            call := some
              (.sendClient client text none, called dumps serial s.host.results db) }) := by
  rw [step] at h
  split at h
  · rename_i hcall hrun hqueue
    refine ⟨hcall, ⟨hrun, hqueue⟩, ?_⟩
    dsimp only at h
    split at h
    · rename_i client text hclient
      exact Or.inr ⟨client, text, hclient, (Option.some.inj h).symm⟩
    · rename_i hclient
      exact Or.inl ⟨hclient, h⟩
  · cases h

variable (search) in
/-- `finished` can be called whatever the lookup finds. -/
theorem step_finished_ne_none {db : Option Database} (hcall : s.call = none)
    (hat : AtFinished s.host) : s.step dumps serial search (.finished db) ≠ none := by
  intro h
  simp only [step, hcall, hat.1, hat.2] at h
  split at h
  · cases h
  · rw [returns_eq hat] at h
    cases h

/-! ### The calls of a run -/

variable (dumps serial) in
/-- A call in `sendClient`, for the client that held the device at the lookup. -/
structure Underway (s : Board ν S) (task : SenderTask String String S) (c : Finished ν) : Prop where
  at_finished : AtFinished s.host
  results : c.results = s.host.results
  contents : c.contents = dumps (resultsEvent serial c.results)
  returned : c.returned = .bool true
  queued : c.queued = 0
  sends : ∃ client text o, c.holder = some client ∧ c.contents = some text ∧
    task = .sendClient client text o ∧ ∀ o' ∈ o, s.sender.clientIdOf o' = some client

variable (dumps serial) in
/-- **The invariant**: what the host has handed over is what the calls were given. -/
structure Inv (s : Board ν S) : Prop where
  addressed : s.sender.Addressed
  handed : s.host.handed = s.finished.map Finished.results
  told : ∀ c ∈ s.finished, c.Told dumps serial
  call : ∀ task c, s.call = some (task, c) → s.Underway dumps serial task c

omit [DecidableEq S] in
theorem inv_start : (start : Board ν S).Inv dumps serial :=
  ⟨EventSender.addressed_start, rfl, fun _ h => absurd h List.not_mem_nil,
    fun _ _ h => by cases h⟩

omit [DecidableEq S] in
/-- A call returns. -/
theorem Inv.returns (h : s.Inv dumps serial) (hat : AtFinished s.host)
    {sender : EventSender String String S} (hsender : sender.Addressed) {c : Finished ν}
    (hc : c.results = s.host.results) (htold : c.Told dumps serial)
    (hret : ({ s with sender := sender } : Board ν S).returns c = some t) :
    t.Inv dumps serial ∧ t.finished = s.finished ++ [c] := by
  rw [returns_eq (s := { s with sender := sender }) hat] at hret
  obtain rfl := Option.some.inj hret
  refine ⟨⟨hsender, ?_, ?_, fun _ _ hcall => by cases hcall⟩, rfl⟩
  · rw [List.map_append, ← h.handed, List.map_singleton, hc]
  · exact List.forall_mem_append.mpr ⟨h.told, List.forall_mem_singleton.mpr htold⟩

variable (dumps serial) in
/-- A step at which a call of `finished` returns. -/
inductive Ends (s : Board ν S) : BoardInput δ S → Finished ν → Prop
  /-- It is called, and goes no further than the lookup. -/
  | at_once {db : Option Database} (hcall : s.call = none)
      (hclient : (perform dumps serial s.host.results db).client = none) :
      Ends s (.finished db) (called dumps serial s.host.results db)
  /-- It has appended the event. -/
  | appended {c : Finished ν} {client text : String} (hresults : c.results = s.host.results)
      (hreturned : c.returned = .bool true) (hholder : c.holder = some client)
      (hcontents : c.contents = some text) (hqueued : c.queued = {(client, text)}) :
      Ends s .sendClient c

/-- `finished` is called: it returns at once, or goes on to `sendClient`. -/
theorem finished_spec {db : Option Database} (hinv : s.Inv dumps serial)
    (h : s.step dumps serial search (.finished db) = some t) :
    t.Inv dumps serial ∧
      ((t.finished = s.finished ∧ Found dumps serial s (.finished (δ := δ) db)) ∨
        ∃ c, t.finished = s.finished ++ [c] ∧ AtFinished s.host ∧
          Ends dumps serial s (.finished (δ := δ) db) c) := by
  obtain ⟨hnone, hat, ⟨hclient, hret⟩ | ⟨client, text, hclient, rfl⟩⟩ := step_finished h
  · obtain ⟨hinv', hfinished⟩ := hinv.returns hat hinv.addressed rfl ⟨rfl, Or.inl rfl⟩ hret
    exact ⟨hinv', Or.inr ⟨_, hfinished, hat, .at_once hnone hclient⟩⟩
  · obtain ⟨hc, -⟩ | ⟨hc, -⟩ | ⟨client', text', hc, hreturned, hdumps, htext, hne, hholder⟩ :=
      perform_cases dumps serial s.host.results db
    · rw [hclient] at hc
      cases hc
    · rw [hclient] at hc
      cases hc
    · obtain ⟨rfl, rfl⟩ := Prod.mk.inj (Option.some.inj (hclient.symm.trans hc))
      refine ⟨⟨hinv.addressed, hinv.handed, hinv.told, fun task c hcall => ?_⟩,
        Or.inl ⟨rfl, fun _ _ => ⟨⟨text, htext, hdumps⟩, client, hne, hholder⟩⟩⟩
      obtain ⟨rfl, rfl⟩ := Prod.mk.inj (Option.some.inj hcall)
      exact ⟨hat, rfl, rfl, hreturned, rfl, client, text, none, hholder, hdumps, rfl,
        fun o' ho' => by cases ho'⟩

/-- A step of `sendClient`: the session of the client is looked up, or the event is
appended to its queue and `finished` returns. -/
theorem sendClient_spec (hinv : s.Inv dumps serial)
    (h : s.step dumps serial search .sendClient = some t) :
    t.Inv dumps serial ∧ (t.finished = s.finished ∨
      ∃ c, t.finished = s.finished ++ [c] ∧ AtFinished s.host ∧
        Ends dumps serial s (.sendClient : BoardInput δ S) c) := by
  rw [step] at h
  split at h
  · cases h
  · rename_i task c hcall
    obtain ⟨hatf, hresults, htold, hreturned, hqueued, client, text, o, hholder, hcontents, rfl,
      ho⟩ := hinv.call task c hcall
    cases o with
    | none =>
      obtain ⟨haddressed, happended, hclient⟩ :=
        EventSender.startSession_spec hinv.addressed client
      obtain rfl := Option.some.inj h
      refine ⟨⟨haddressed, hinv.handed, hinv.told, fun task c' hcall' => ?_⟩, Or.inl rfl⟩
      obtain ⟨rfl, rfl⟩ := Prod.mk.inj (Option.some.inj hcall')
      refine ⟨hatf, hresults, htold, hreturned, ?_, client, text, _, hholder, hcontents, rfl, ?_⟩
      · change c.queued + ((s.sender.startSession client).1.appended - s.sender.appended) = 0
        rw [happended, hqueued, tsub_self s.sender.appended, zero_add]
      · rintro o' ho'
        obtain rfl := Option.some.inj ho'
        exact hclient
    | some o =>
      have hclient := ho o rfl
      have haddressed : (s.sender.modifyObject o
          (EventSender.stepSession (.send text))).Addressed :=
        hinv.addressed.frame (fun _ h => h)
          (EventSender.clientIdOf_modifyObject fun _ => rfl) fun _ h => h
      have hsent : c.queued + ((s.sender.modifyObject o
          (EventSender.stepSession (.send text))).appended - s.sender.appended) =
            {(client, text)} := by
        rw [EventSender.appended_send hclient, hqueued, add_tsub_cancel_left, zero_add]
      obtain ⟨hinv', hfinished⟩ := hinv.returns hatf haddressed
        (c := { c with
          queued := c.queued + ((s.sender.modifyObject o
            (EventSender.stepSession (.send text))).appended - s.sender.appended) }) hresults
        ⟨htold, Or.inr ⟨client, text, hholder, hcontents, hsent⟩⟩ h
      exact ⟨hinv', Or.inr ⟨_, hfinished, hatf,
        .appended hresults hreturned hholder hcontents hsent⟩⟩

/-- **What one step does**: it keeps the invariant, and one call of `finished` returns or
none does. -/
theorem inv_step {i : BoardInput δ S} (hinv : s.Inv dumps serial)
    (h : s.step dumps serial search i = some t) :
    t.Inv dumps serial ∧ ((t.finished = s.finished ∧ Found dumps serial s i) ∨
      ∃ c, t.finished = s.finished ++ [c] ∧ AtFinished s.host ∧ Ends dumps serial s i c) := by
  match i with
  | .host j =>
    obtain ⟨host, hhost, rfl, hat, hcv⟩ := step_host h
    refine ⟨⟨hinv.addressed, (handed_of_step hhost hat).trans hinv.handed, hinv.told,
      fun task c hcall => ?_⟩, Or.inl ⟨rfl, trivial⟩⟩
    obtain ⟨hatf, hresults, htold, hreturned, hqueued, hsends⟩ := hinv.call task c hcall
    obtain ⟨hrun, hqueue, hsame⟩ :=
      frame_of_step hhost (hat hatf) (hcv (Option.isSome_iff_exists.mpr ⟨_, hcall⟩))
    exact ⟨⟨hrun.trans hatf.1, hqueue.trans hatf.2⟩, hresults.trans hsame.symm, htold, hreturned,
      hqueued, hsends⟩
  | .sender j =>
    obtain ⟨sender, hsender, rfl⟩ := Option.map_eq_some_iff.mp h
    refine ⟨⟨(EventSender.appended_step hinv.addressed hsender).1, hinv.handed, hinv.told,
      fun task c hcall => ?_⟩, Or.inl ⟨rfl, trivial⟩⟩
    obtain ⟨hatf, hresults, htold, hreturned, hqueued, client, text, o, hholder, hcontents, htask,
      ho⟩ := hinv.call task c hcall
    exact ⟨hatf, hresults, htold, hreturned, hqueued, client, text, o, hholder, hcontents, htask,
      fun o' ho' => EventSender.clientIdOf_step (ho o' ho') hsender⟩
  | .finished db => exact finished_spec hinv h
  | .sendClient =>
    exact (sendClient_spec hinv h).imp_right fun hor => hor.imp_left fun hsame => ⟨hsame, trivial⟩

/-- A call that returns at once is honest where the event cannot be serialised,
or a client holds the device, and then it does not return at once. -/
theorem honest_called {pulses : Results ν} {db : Option Database}
    (hclient : (perform dumps serial pulses db).client = none) :
    (called dumps serial pulses db).Honest ↔
      (∀ text ∈ dumps (resultsEvent serial pulses), text = "") ∨
        ∃ client, client ≠ "" ∧ (db.bind fun db => db.holder serial) = some client := by
  obtain ⟨-, hfalse, hdumps⟩ | ⟨-, htrue, ⟨text, hdumps, htext⟩, hholder⟩ |
    ⟨client, text, hsome, -⟩ := perform_cases dumps serial pulses db
  · exact iff_of_true (Or.inr hfalse) (Or.inl hdumps)
  · refine iff_of_false ?_ ?_
    · rintro (⟨-, client, text', -, -, hqueued⟩ | hfalse)
      · exact Multiset.singleton_ne_zero _ hqueued.symm
      · exact absurd (htrue.symm.trans hfalse) (by simp)
    · rintro (hnone | ⟨client, hne, hsome⟩)
      · exact htext (hnone text hdumps)
      · exact hne (hholder client hsome)
  · rw [hsome] at hclient
    cases hclient

omit [DecidableEq S] in
theorem Found.answered {i : BoardInput δ S} (h : Found dumps serial s i) :
    Answered dumps serial s i := by
  cases i with
  | host j | sender j | sendClient => trivial
  | finished db => exact fun hcall hat => Or.inr (h hcall hat).2

omit [DecidableEq S] in
/-- A call that returns is honest exactly if the lookup finds what it should. -/
theorem Ends.honest_iff_answered {i : BoardInput δ S} {c : Finished ν} (h : Ends dumps serial s i c)
    (hat : AtFinished s.host) : c.Honest ↔ Answered dumps serial s i := by
  cases h with
  | at_once hcall hclient =>
    exact (honest_called hclient).trans ⟨fun hans _ _ => hans, fun hans => hans hcall hat⟩
  | appended hresults hreturned hholder hcontents hqueued =>
    exact iff_of_true (Or.inl ⟨hreturned, _, _, hholder, hcontents, hqueued⟩) trivial

/-- **One step**: the calls that have returned are honest after it, if they were
before and the lookup finds what it should. -/
theorem honest_step {i : BoardInput δ S} (hinv : s.Inv dumps serial)
    (h : s.step dumps serial search i = some t) :
    (∀ c ∈ t.finished, c.Honest) ↔
      (∀ c ∈ s.finished, c.Honest) ∧ Answered dumps serial s i := by
  obtain ⟨-, ⟨hsame, hfound⟩ | ⟨c, hfinished, hat, hends⟩⟩ := inv_step hinv h
  · rw [hsame]
    exact (and_iff_left hfound.answered).symm
  · rw [hfinished, List.forall_mem_append, List.forall_mem_singleton, hends.honest_iff_answered hat]

/-- What the board does to the host the host does by itself: what it is given, or what
its run thread does. -/
theorem host_step {i : BoardInput δ S} (h : s.step dumps serial search i = some t) :
    t.host = s.host ∨ ∃ j, (i = .host j ∨ j = .run) ∧ s.host.step search j = some t.host := by
  match i with
  | .host j =>
    obtain ⟨host, hhost, rfl, -⟩ := step_host h
    exact Or.inr ⟨j, Or.inl rfl, hhost⟩
  | .sender j =>
    obtain ⟨sender, -, rfl⟩ := Option.map_eq_some_iff.mp h
    exact Or.inl rfl
  | .finished db =>
    obtain ⟨-, -, ⟨-, hret⟩ | ⟨client, text, -, rfl⟩⟩ := step_finished h
    · obtain ⟨host, hhost, rfl⟩ := Option.map_eq_some_iff.mp hret
      exact Or.inr ⟨.run, Or.inr rfl, hhost⟩
    · exact Or.inl rfl
  | .sendClient =>
    rw [step] at h
    split at h
    · cases h
    · dsimp only at h
      split at h
      · obtain rfl := Option.some.inj h
        exact Or.inl rfl
      · obtain ⟨host, hhost, rfl⟩ := Option.map_eq_some_iff.mp h
        exact Or.inr ⟨.run, Or.inr rfl, hhost⟩

/-- **When `finished` answers what it has done.** However `json.dumps`, the
device's serial and what is read from its port may be: what the run thread of the
`PulseCountState` has handed over, each time, is what one call of `finished` was
given, and the text of the call is that of an event with these results; and at every
time the calls that have returned are honest, exactly if each call, when it looks the
client up, cannot serialise its event or finds a client with a name. -/
theorem honest_iff (is : List (BoardInput δ S)) :
    (∀ t, (machine dumps serial search).run start is = some t →
      (Host.machine search).Reaches .start t.host ∧
        t.host.handed = t.finished.map Finished.results ∧
        ∀ c ∈ t.finished, c.contents = dumps ⟨serial, ⟨[("event", .text "results"),
          ("results", .results c.results), ("serial", .text serial)], by simp⟩⟩) ∧
    ((machine dumps serial search).Along (fun s => ∀ c ∈ s.finished, c.Honest) start is ↔
      (machine dumps serial search).Meets (Answered dumps serial) start is) := by
  constructor
  · intro t ht
    have hinv : t.Inv dumps serial ∧ (Host.machine search).Reaches .start t.host :=
      Machine.invariant (I := fun s : Board ν S =>
          s.Inv dumps serial ∧ (Host.machine search).Reaches .start s.host)
        (fun s i u hs h => by
          refine ⟨(inv_step hs.1 h).1, ?_⟩
          obtain heq | ⟨j, -, hj⟩ := host_step h
          · rw [heq]
            exact hs.2
          · exact hs.2.tail hj)
        ⟨inv_start, Machine.Reaches.refl _⟩ ht
    refine ⟨hinv.2, hinv.1.handed, fun c hc => ?_⟩
    rw [← resultsEvent_eq]
    exact (hinv.1.told c hc).contents
  · refine Machine.along_iff_meets (I := Inv dumps serial) (fun s i t hs h => (inv_step hs h).1)
      (fun s i t hs hP h => ?_) (fun s i h => ?_) inv_start fun c hc => absurd hc List.not_mem_nil
    · exact (honest_step hs h).trans (and_iff_right hP)
    · match i with
      | .host _ | .sender _ | .sendClient => trivial
      | .finished db => exact fun hcall hat => (step_finished_ne_none search hcall hat h).elim

/-! ### A run -/

/-- One bitstream is submitted and evaluated. -/
def evaluated : List (BoardInput (List Char) Unit) :=
  ([.request [1] ⟨[("a", "bits")], by decide⟩, .queue 0, .queue 0, .run, .run, .run, .run, .run,
    .receive "\r\n, pulses: 42\r\n".toList, .read, .read, .run, .run, .run] :
      List (HostInput (List Char))).map .host

/-- Its results event, serialised. -/
def resultsText : String :=
  "\x7b\"serial\": \"A\", \"contents\": \x7b\"event\": \"results\", " ++
    "\"results\": \x7b\"a\": \"42\"\x7d, \"serial\": \"A\"\x7d\x7d"

/-- A device that nobody holds. -/
def unreserved : Database where
  worker := ⟨[⟨"bench", "10.0.0.1", 8081, 0⟩], by decide⟩
  device := ⟨[⟨"A", "bench", .awaitFlashDefault⟩], by decide⟩
  reservations := ∅
  deviceWorker := by decide
  reservationsDevice := fun r hr => absurd hr (Table.not_mem_empty r)

/-- The board at the end of a run. -/
def ran (is : List (BoardInput (List Char) Unit)) : Option (Board (List Char) Unit) :=
  (machine (fun _ => some resultsText) "A" signals).run start is

/-- What there is to see of the calls of `finished` that have returned. -/
structure CallsView where
  kept : List (String × Option (List Char))
  results : List (List (String × Option (List Char)))
  returned : List Returned
  queued : List ℕ
  deriving DecidableEq

def callsView (s : Board (List Char) Unit) : CallsView where
  kept := s.host.results.rows
  results := s.finished.map fun c => c.results.rows
  returned := s.finished.map Finished.returned
  queued := s.finished.map fun c => c.queued.card

theorem unreserved_run : ∀ db ∈ [none, some unreserved],
    (ran (evaluated ++ [.finished db])).map callsView =
      some ⟨[], [[("a", some "42".toList)]], [.bool true], [0]⟩ := by
  decide

/-- The same device, reserved by a client. -/
def reserved : Database :=
  { unreserved with
    reservations := ⟨[⟨"A", "client", 3600⟩], by decide⟩
    reservationsDevice := by decide }

/-- With a reservation the event reaches the queue of a session. -/
example :
    (ran (evaluated ++ [.finished (some reserved), .sendClient, .sendClient])).map callsView =
      some ⟨[], [[("a", some "42".toList)]], [.bool true], [1]⟩ := by
  decide

/-- **Results that are lost**: `finished` has answered `True`, nothing has been
appended anywhere, and the results are forgotten. -/
def Lost (db : Option Database) : Prop :=
  ∃ s c, ran (evaluated ++ [.finished db]) = some s ∧ s.finished = [c] ∧
    s.host.results.rows = [] ∧ c.results.rows = [("a", some "42".toList)] ∧
    c.returned = .bool true ∧ c.queued = 0 ∧ ¬c.Honest

theorem lost_of_run {db : Option Database}
    (h : (ran (evaluated ++ [.finished db])).map callsView =
      some ⟨[], [[("a", some "42".toList)]], [.bool true], [0]⟩) : Lost db := by
  obtain ⟨s, hs, heq⟩ := Option.map_eq_some_iff.mp h
  obtain ⟨hkept, hresults, hreturned, hqueued⟩ := CallsView.mk.inj heq
  obtain ⟨c, hc, hrows⟩ := List.map_eq_singleton_iff.mp hresults
  rw [hc] at hreturned hqueued
  have htrue : c.returned = .bool true := List.singleton_inj.mp hreturned
  have hnone : c.queued = 0 := Multiset.card_eq_zero.mp (List.singleton_inj.mp hqueued)
  refine ⟨s, c, hs, hc, hkept, hrows, htrue, hnone, ?_⟩
  rintro (⟨-, client, text, -, -, hsingle⟩ | hfalse)
  · rw [hnone] at hsingle
    exact Multiset.singleton_ne_zero _ hsingle.symm
  · rw [htrue] at hfalse
    cases hfalse

/-- **The results of a device without a reservation are lost**, and so they are
where the lookup fails. -/
theorem unreserved_lost : Lost none ∧ Lost (some unreserved) :=
  ⟨lost_of_run (unreserved_run none List.mem_cons_self),
    lost_of_run (unreserved_run (some unreserved) (List.mem_cons_of_mem _ List.mem_cons_self))⟩

end Board

end UsbipIce.PulseCount
