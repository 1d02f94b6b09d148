import UsbipIce.Lib.Table
import UsbipIce.EventSender.Session

/-!
# Sockets, sessions and timers

`EventSender` of `utils/EventSender.py` under the socket handlers of
`control/app.py`: `connection` records the client of a socket and gives the
client's session that socket, `disconnect` takes it away again and starts the
timer after which `endSession` drops the session. One step of the machine is
one lock-held section of a handler, of a `sendClient` call or of a timer's
callback; sockets, sends and timers come in any order.

The disconnect handler works by client id: it clears whatever socket the
client's session has, and the timer it starts ends the session by name. So two
sockets of one client that overlap leave the client without a socket when the
first of them goes (`UsbipIce.EventSender.overlap_loses`), and a handler or a
timer that runs while another handler of the client is under way can do the
same. In the runs without such overlaps (`UsbipIce.EventSender.Apart`) a client
with a connected socket is served at one of its sockets whenever no handler is
under way (`UsbipIce.EventSender.served`).
-/

namespace UsbipIce

open Lib

/-! ### The state -/

/-- A session object: the `Session`, the client id it was made for, and the
timer its `timeout` refers to. -/
structure SessionObject (C M S : Type*) where
  clientId : C
  timeout : ℕ
  session : Session M S

/-- A `threading.Timer`: waiting, cancelled, or past the point where `cancel`
could stop it. -/
inductive TimerState where
  | armed
  | cancelled
  | expired
  deriving DecidableEq

/-- A timer started by `startTimeout` of some session object. -/
structure SessionTimer where
  session : ℕ
  state : TimerState

/-- `Timer.cancel`: too late for a timer that has run out. -/
def SessionTimer.cancel (t : SessionTimer) : SessionTimer :=
  if t.state = .armed then { t with state := .cancelled } else t

/-- Where a `connection` handler is, once it has recorded its socket. -/
inductive ConnectionAt where
  /-- About to call `startSession`. -/
  | startSession
  /-- In `setSocket`, about to set `sock_id`. -/
  | setSocket (session : ℕ)
  /-- In `setSocket`, about to call `stopTimeout` and `flush`. -/
  | stopTimeout (session : ℕ)

/-- Where a `disconnect` handler is, once it has popped its socket. -/
inductive DisconnectAt where
  /-- In `removeSocket`, about to look the session up. -/
  | removeSocket
  /-- In `Session.removeSocket`, about to clear `sock_id`. -/
  | clearSocket (session : ℕ)
  /-- In `Session.removeSocket`, about to call `startTimeout`. -/
  | startTimeout (session : ℕ)

/-- A call under way. -/
inductive SenderTask (C M S : Type*) where
  | connection (sid : S) (clientId : C) (pc : ConnectionAt)
  | disconnect (clientId : C) (pc : DisconnectAt)
  /-- A timer's callback, about to call `endSession`. -/
  | timeout (clientId : C)
  /-- A `sendClient` call, which has its session or is about to look it up. -/
  | sendClient (clientId : C) (contents : M) (session : Option ℕ)

/-- The state of an `EventSender` and of the app around it. -/
structure EventSender (C M S : Type*) where
  /-- `sock_id_to_client_id` of the app: the connected sockets. -/
  sockIdToClientId : Table (S × C) Prod.fst
  /-- `sessions`, naming session objects by their index. -/
  sessions : Table (C × ℕ) Prod.fst
  /-- Every session object made so far. -/
  objects : List (SessionObject C M S)
  /-- Every timer started so far. -/
  timers : List SessionTimer
  /-- The calls under way. -/
  tasks : List (SenderTask C M S)

/-- What happens next. -/
inductive SenderInput (C M S : Type*) where
  /-- A socket connects; its `auth` may lack a client id. -/
  | connect (sid : S) (clientId : Option C)
  /-- A socket disconnects. -/
  | disconnect (sid : S)
  /-- `sendClient` is called. -/
  | send (clientId : C) (contents : M)
  /-- A timer runs out. -/
  | fire (timer : ℕ)
  /-- Call `k` takes its next step. -/
  | task (k : ℕ)
  /-- A `flush` of a session takes its next step. -/
  | flush (session k : ℕ) (ok : Bool)

namespace EventSender

variable {C M S : Type*}

/-! ### The operations -/

/-- No socket, no session. -/
def start : EventSender C M S := ⟨∅, ∅, [], [], []⟩

/-- The object at an index, changed. -/
def modifyObject (s : EventSender C M S) (o : ℕ) (f : SessionObject C M S → SessionObject C M S) :
    EventSender C M S :=
  { s with objects := s.objects.modify o f }

/-- An operation of the session itself. -/
def stepSession (i : SessionInput M S) (obj : SessionObject C M S) : SessionObject C M S :=
  { obj with session := (obj.session.step i).getD obj.session }

/-- `Session.startTimeout`: the new timer takes the place of the old one. -/
def startTimeout (s : EventSender C M S) (o : ℕ) : EventSender C M S :=
  { s.modifyObject o (fun obj => { obj with timeout := s.timers.length }) with
    timers := s.timers ++ [⟨o, .armed⟩] }

/-- `Session.stopTimeout`. -/
def stopTimeout (s : EventSender C M S) (o : ℕ) : EventSender C M S :=
  { s with
    timers := match s.objects[o]? with
      | none => s.timers
      | some obj => s.timers.modify obj.timeout SessionTimer.cancel }

variable [DecidableEq C] [DecidableEq S]

/-- `EventSender.startSession`; making a session starts its timer. -/
def startSession (s : EventSender C M S) (clientId : C) : EventSender C M S × ℕ :=
  match s.sessions.find? clientId with
  | some (_, o) => (s, o)
  | none =>
    ({ s with
       sessions := s.sessions.put (clientId, s.objects.length)
       objects := s.objects ++ [⟨clientId, s.timers.length, .start⟩]
       timers := s.timers ++ [⟨s.objects.length, .armed⟩] }, s.objects.length)

/-- `EventSender.endSession`. -/
def endSession (s : EventSender C M S) (clientId : C) : EventSender C M S :=
  { s with sessions := s.sessions.delete fun p => p.1 = clientId }

/-- The next section of a call, and what is left of the call. -/
def stepTask (s : EventSender C M S) :
    SenderTask C M S → EventSender C M S × Option (SenderTask C M S)
  | .connection sid c .startSession =>
    ((s.startSession c).1, some (.connection sid c (.setSocket (s.startSession c).2)))
  | .connection sid c (.setSocket o) =>
    (s.modifyObject o fun obj => { obj with session := { obj.session with sockId := some sid } },
      some (.connection sid c (.stopTimeout o)))
  | .connection _ _ (.stopTimeout o) =>
    ((s.stopTimeout o).modifyObject o (stepSession .flush), none)
  | .disconnect c .removeSocket =>
    match s.sessions.find? c with
    | some (_, o) => (s, some (.disconnect c (.clearSocket o)))
    | none => (s, none)
  | .disconnect c (.clearSocket o) =>
    (s.modifyObject o (stepSession .removeSocket), some (.disconnect c (.startTimeout o)))
  | .disconnect _ (.startTimeout o) => (s.startTimeout o, none)
  | .timeout c => (s.endSession c, none)
  | .sendClient c contents none =>
    ((s.startSession c).1, some (.sendClient c contents (some (s.startSession c).2)))
  | .sendClient _ contents (some o) => (s.modifyObject o (stepSession (.send contents)), none)

/-- The app and its event sender, step by step. -/
def step (s : EventSender C M S) : SenderInput C M S → Option (EventSender C M S)
  | .connect _ none => some s
  | .connect sid (some c) =>
    if sid ∈ s.sockIdToClientId.keys then none
    else some
      { s with
        sockIdToClientId := s.sockIdToClientId.put (sid, c)
        tasks := s.tasks ++ [.connection sid c .startSession] }
  | .disconnect sid =>
    match s.sockIdToClientId.find? sid with
    | none => some s
    | some (_, c) => some
      { s with
        sockIdToClientId := s.sockIdToClientId.delete fun p => p.1 = sid
        tasks := s.tasks ++ [.disconnect c .removeSocket] }
  | .send c contents => some { s with tasks := s.tasks ++ [.sendClient c contents none] }
  | .fire t =>
    match s.timers[t]? with
    | some ⟨o, .armed⟩ => (s.objects[o]?).map fun obj =>
      { s with
        timers := s.timers.set t ⟨o, .expired⟩
        tasks := s.tasks ++ [.timeout obj.clientId] }
    | _ => none
  | .task k => (s.tasks[k]?).map fun task =>
    { (s.stepTask task).1 with tasks := advance s.tasks k (s.stepTask task).2 }
  | .flush o k ok => some (s.modifyObject o (stepSession (.step k ok)))

/-- The app as a machine. -/
def machine (C M S : Type*) [DecidableEq C] [DecidableEq S] :
    Machine (EventSender C M S) (SenderInput C M S) := ⟨step⟩

/-! ### Reading the state -/

/-- The client id of a session object. -/
def clientIdOf (s : EventSender C M S) (o : ℕ) : Option C := (s.objects[o]?).map (·.clientId)

/-- The timer a session object refers to. -/
def timeoutOf (s : EventSender C M S) (o : ℕ) : Option ℕ := (s.objects[o]?).map (·.timeout)

/-- The socket of a session object. -/
def sockIdOf (s : EventSender C M S) (o : ℕ) : Option S :=
  (s.objects[o]?).bind (·.session.sockId)

/-- None of a session object's timers is waiting. -/
def NoArmed (s : EventSender C M S) (o : ℕ) : Prop := ∀ t : ℕ, s.timers[t]? ≠ some ⟨o, .armed⟩

/-- The socket of a session object is a connected socket of the client. -/
def Socketed (s : EventSender C M S) (c : C) (o : ℕ) : Prop :=
  ∃ sid, s.sockIdOf o = some sid ∧ (sid, c) ∈ s.sockIdToClientId

/-- The client's session has one of the client's sockets, and no timer that
could end it. -/
def Settled (s : EventSender C M S) (c : C) : Prop :=
  ∃ o, (c, o) ∈ s.sessions ∧ s.Socketed c o ∧ s.NoArmed o

end EventSender

namespace SenderTask

variable {C M S : Type*}

/-- The call takes the session of a client away: a disconnect handler, or the
callback of a timer. -/
def closes [DecidableEq C] (c : C) : SenderTask C M S → Bool
  | .disconnect c' _ | .timeout c' => decide (c' = c)
  | .connection .. | .sendClient .. => false

/-- The call is a connection handler of a client. -/
def connects [DecidableEq C] (c : C) : SenderTask C M S → Bool
  | .connection _ c' _ => decide (c' = c)
  | .disconnect .. | .timeout .. | .sendClient .. => false

/-- The session a handler has in hand. -/
def session : SenderTask C M S → Option ℕ
  | .connection _ _ (.setSocket o) | .connection _ _ (.stopTimeout o) => some o
  | .disconnect _ (.clearSocket o) | .disconnect _ (.startTimeout o) => some o
  | .connection _ _ .startSession | .disconnect _ .removeSocket => none
  | .timeout _ | .sendClient .. => none

end SenderTask

namespace EventSender

variable {C M S : Type*}

section Modify

variable {s : EventSender C M S} {o : ℕ} {f : SessionObject C M S → SessionObject C M S}

@[simp] theorem clientIdOf_modifyObject (h : ∀ obj, (f obj).clientId = obj.clientId) :
    (s.modifyObject o f).clientIdOf = s.clientIdOf := by
  funext j
  simp only [clientIdOf, modifyObject, List.getElem?_modify, Option.map_map,
    Option.map_eq_map]
  refine congrArg (fun g => Option.map g s.objects[j]?) (funext fun obj => ?_)
  by_cases hj : o = j <;> simp [hj, h]

@[simp] theorem timeoutOf_modifyObject (h : ∀ obj, (f obj).timeout = obj.timeout) :
    (s.modifyObject o f).timeoutOf = s.timeoutOf := by
  funext j
  simp only [timeoutOf, modifyObject, List.getElem?_modify, Option.map_map,
    Option.map_eq_map]
  refine congrArg (fun g => Option.map g s.objects[j]?) (funext fun obj => ?_)
  by_cases hj : o = j <;> simp [hj, h]

@[simp] theorem timeoutOf_modifyObject_ne {j : ℕ} (hj : j ≠ o) :
    (s.modifyObject o f).timeoutOf j = s.timeoutOf j := by
  simp [timeoutOf, modifyObject, hj.symm]

@[simp] theorem sockIdOf_modifyObject (h : ∀ obj, (f obj).session.sockId = obj.session.sockId) :
    (s.modifyObject o f).sockIdOf = s.sockIdOf := by
  funext j
  simp only [sockIdOf, modifyObject, List.getElem?_modify, Option.map_eq_map]
  cases s.objects[j]? with
  | none => rfl
  | some obj => by_cases hj : o = j <;> simp [hj, h]

@[simp] theorem sockIdOf_modifyObject_ne {j : ℕ} (hj : j ≠ o) :
    (s.modifyObject o f).sockIdOf j = s.sockIdOf j := by
  simp [sockIdOf, modifyObject, hj.symm]

end Modify

/-- Sending and flushing leave the socket of a session alone. -/
theorem sockId_stepSession {i : SessionInput M S} (hset : ∀ sid, i ≠ .setSocket sid)
    (hremove : i ≠ .removeSocket) (obj : SessionObject C M S) :
    (stepSession i obj).session.sockId = obj.session.sockId := by
  cases i with
  | send data => rfl
  | setSocket sid => exact absurd rfl (hset sid)
  | removeSocket => exact absurd rfl hremove
  | flush => rfl
  | step k ok =>
    simp only [stepSession, Session.step]
    cases obj.session.flushes[k]? with
    | none => rfl
    | some f =>
      rw [Option.map_some, Option.getD_some, Session.stepFlush.eq_def]
      split
      · split <;> rfl
      · rfl
      · split <;> rfl
      · rfl

variable [DecidableEq C]

/-! ### The invariant -/

/-- What holds of the runs without overlaps. -/
structure Inv (s : EventSender C M S) : Prop where
  /-- A session is listed under its own client. -/
  clientId : ∀ c o, (c, o) ∈ s.sessions → s.clientIdOf o = some c
  /-- A waiting timer is the one its session refers to, and that session is
  listed. -/
  armed : ∀ (t o : ℕ), s.timers[t]? = some ⟨o, .armed⟩ →
    ∃ c, (c, o) ∈ s.sessions ∧ s.timeoutOf o = some t
  /-- While a session is being taken away, its client has no socket, and the
  session no waiting timer. -/
  closing : ∀ c, ∀ task ∈ s.tasks, task.closes c →
    (∀ sid, (sid, c) ∉ s.sockIdToClientId) ∧
      ∃ o, (c, o) ∈ s.sessions ∧ s.NoArmed o ∧ ∀ o' ∈ task.session, o' = o
  /-- Only one call takes a client's session away. -/
  closings : ∀ c, s.tasks.countP (SenderTask.closes c) ≤ 1
  /-- The socket of a connection handler is connected, and the session it has
  in hand is its client's. -/
  connecting : ∀ sid c pc, .connection sid c pc ∈ s.tasks → (sid, c) ∈ s.sockIdToClientId ∧
    ∀ o ∈ (SenderTask.connection sid c pc : SenderTask C M S).session, (c, o) ∈ s.sessions
  /-- Once `setSocket` has run, the session has a socket of its client. -/
  stopping : ∀ sid c o, .connection sid c (.stopTimeout o) ∈ s.tasks → s.Socketed c o
  /-- A connected socket whose handler is through has a settled client. -/
  connected : ∀ sid c, (sid, c) ∈ s.sockIdToClientId →
    (∃ pc, .connection sid c pc ∈ s.tasks) ∨ s.Settled c

theorem inv_start : Inv (start : EventSender C M S) where
  clientId := fun _ _ h => absurd h (Table.not_mem_empty _)
  armed := fun t o h => by simp [start] at h
  closing := fun c task h => absurd h List.not_mem_nil
  closings := fun c => by simp [start]
  connecting := fun _ _ _ h => absurd h List.not_mem_nil
  stopping := fun _ _ _ h => absurd h List.not_mem_nil
  connected := fun _ _ h => absurd h (Table.not_mem_empty _)

omit [DecidableEq C] in
/-- A client has one session. -/
theorem session_eq {s : EventSender C M S} {c : C} {o o' : ℕ} (ho : (c, o) ∈ s.sessions)
    (ho' : (c, o') ∈ s.sessions) : o = o' :=
  congrArg Prod.snd (Table.eq_of_key_eq ho ho' rfl)

/-! ### Moving the calls -/

/-- **A call goes on**: what the invariant asks of the rest of the call. -/
theorem Inv.advance {s : EventSender C M S} (h : s.Inv) {k : ℕ} {task : SenderTask C M S}
    (hk : s.tasks[k]? = some task) (next : Option (SenderTask C M S))
    (hclose : ∀ n ∈ next, ∀ c, n.closes c = true → task.closes c = true ∧
      ∀ o ∈ n.session, (c, o) ∈ s.sessions)
    (hconn : ∀ sid c pc, next = some (.connection sid c pc) →
      (∃ pc', task = .connection sid c pc') ∧
      (∀ o ∈ (SenderTask.connection sid c pc : SenderTask C M S).session, (c, o) ∈ s.sessions) ∧
      ∀ o, pc = .stopTimeout o → s.Socketed c o)
    (hkeep : ∀ sid c pc, task = .connection sid c pc →
      (∃ pc', next = some (.connection sid c pc')) ∨ s.Settled c) :
    Inv { s with tasks := Lib.advance s.tasks k next } := by
  have hmem : ∀ {x}, x ∈ Lib.advance s.tasks k next → next = some x ∨ x ∈ s.tasks := fun hx =>
    (mem_advance hk).mp hx |>.imp id fun hx => (mem_iff_eq_or_mem_eraseIdx hk).mpr (Or.inr hx)
  have htask : task ∈ s.tasks := List.mem_of_getElem? hk
  refine ⟨h.clientId, h.armed, fun c x hx hcl => ?_, fun c => ?_, fun sid c pc hx => ?_,
    fun sid c o hx => ?_, fun sid c hsid => ?_⟩
  · rcases hmem hx with rfl | hx
    · obtain ⟨htc, hses⟩ := hclose x rfl c hcl
      obtain ⟨hno, o, ho, harm, -⟩ := h.closing c task htask htc
      refine ⟨hno, o, ho, harm, fun o' ho' => ?_⟩
      exact session_eq (hses o' ho') ho
    · exact h.closing c x hx hcl
  · have hold := h.closings c
    rw [countP_eraseIdx _ hk] at hold
    change (Lib.advance s.tasks k next).countP _ ≤ 1
    rw [countP_advance _ hk]
    cases next with
    | none => simpa using Nat.le_of_add_right_le hold
    | some n =>
      rw [Option.toList_some, List.countP_singleton]
      by_cases hn : n.closes c = true
      · rw [(hclose n rfl c hn).1] at hold
        rw [hn]
        omega
      · rw [if_neg hn]
        omega
  · rcases hmem hx with hn | hx
    · obtain ⟨⟨pc', rfl⟩, hses, -⟩ := hconn sid c pc hn
      exact ⟨(h.connecting sid c pc' htask).1, hses⟩
    · exact h.connecting sid c pc hx
  · rcases hmem hx with hn | hx
    · exact (hconn sid c _ hn).2.2 o rfl
    · exact h.stopping sid c o hx
  · rcases h.connected sid c hsid with ⟨pc, hpc⟩ | hset
    · rcases (mem_iff_eq_or_mem_eraseIdx hk).mp hpc with rfl | hpc
      · rcases hkeep sid c pc rfl with ⟨pc', hn⟩ | hset
        · exact Or.inl ⟨pc', (mem_advance hk).mpr (Or.inl hn)⟩
        · exact Or.inr hset
      · exact Or.inl ⟨pc, (mem_advance hk).mpr (Or.inr hpc)⟩
    · exact Or.inr hset

/-- A call that is no connection handler ends. -/
theorem Inv.finish {s : EventSender C M S} (h : s.Inv) {k : ℕ} {task : SenderTask C M S}
    (hk : s.tasks[k]? = some task) (hconn : ∀ sid c pc, task ≠ .connection sid c pc) :
    Inv { s with tasks := s.tasks.eraseIdx k } := by
  refine h.advance hk none ?_ ?_ ?_
  · exact fun n hn => absurd hn (Option.not_mem_none n)
  · exact fun sid c pc hn => absurd hn (by simp)
  · exact fun sid c pc ht => absurd ht (hconn sid c pc)

/-- The other calls leave the session alone that one call takes away. -/
theorem Inv.not_closes_of_eraseIdx {s : EventSender C M S} (h : s.Inv) {k : ℕ}
    {task : SenderTask C M S} (hk : s.tasks[k]? = some task) {c : C} (hcl : task.closes c = true) :
    ∀ x ∈ s.tasks.eraseIdx k, ¬x.closes c = true := by
  have hcount := h.closings c
  rw [countP_eraseIdx _ hk, hcl, if_pos rfl] at hcount
  exact List.countP_eq_zero.mp (by omega)

/-- **A call begins** that is no connection handler. -/
theorem Inv.push {s : EventSender C M S} (h : s.Inv) {task : SenderTask C M S}
    (hconn : ∀ sid c pc, task ≠ .connection sid c pc)
    (hclose : ∀ c, task.closes c = true →
      (∀ x ∈ s.tasks, ¬x.closes c = true) ∧ (∀ sid, (sid, c) ∉ s.sockIdToClientId) ∧
        ∃ o, (c, o) ∈ s.sessions ∧ s.NoArmed o ∧ ∀ o' ∈ task.session, o' = o) :
    Inv { s with tasks := s.tasks ++ [task] } := by
  refine ⟨h.clientId, h.armed, fun c x hx hcl => ?_, fun c => ?_, fun sid c pc hx => ?_,
    fun sid c o hx => ?_, fun sid c hsid => ?_⟩
  · rcases List.mem_append.mp hx with hx | hx
    · exact h.closing c x hx hcl
    · obtain rfl := List.mem_singleton.mp hx
      exact (hclose c hcl).2
  · rw [List.countP_append, List.countP_singleton]
    by_cases hn : task.closes c = true
    · rw [List.countP_eq_zero.mpr (hclose c hn).1, hn]
      simp
    · rw [if_neg hn]
      exact h.closings c
  · rcases List.mem_append.mp hx with hx | hx
    · exact h.connecting sid c pc hx
    · exact absurd (List.mem_singleton.mp hx).symm (hconn sid c pc)
  · rcases List.mem_append.mp hx with hx | hx
    · exact h.stopping sid c o hx
    · exact absurd (List.mem_singleton.mp hx).symm (hconn sid c _)
  · exact (h.connected sid c hsid).imp_left fun ⟨pc, hpc⟩ => ⟨pc, List.mem_append_left _ hpc⟩

/-! ### The operations keep the invariant -/

/-- What `connection` does before anything else. -/
theorem Inv.connect {s : EventSender C M S} [DecidableEq S] (h : s.Inv) {sid : S} {c : C}
    (hnew : sid ∉ s.sockIdToClientId.keys) (hno : ∀ x ∈ s.tasks, ¬x.closes c = true) :
    Inv { s with
      sockIdToClientId := s.sockIdToClientId.put (sid, c)
      tasks := s.tasks ++ [.connection sid c .startSession] } := by
  have hold : ∀ {p : S × C}, p ∈ s.sockIdToClientId → p ∈ s.sockIdToClientId.put (sid, c) :=
    fun {p} hp => Table.mem_put.mpr (Or.inr ⟨hp, fun heq : p.1 = sid =>
      hnew (heq ▸ Table.key_mem_keys hp)⟩)
  have hsock : ∀ {c' o}, s.Socketed c' o →
      Socketed { s with sockIdToClientId := s.sockIdToClientId.put (sid, c) } c' o :=
    fun ⟨sid', h₁, h₂⟩ => ⟨sid', h₁, hold h₂⟩
  have hmem : ∀ {x : SenderTask C M S}, x ∈ s.tasks ++ [.connection sid c .startSession] →
      x ∈ s.tasks ∨ x = .connection sid c .startSession := fun hx =>
    (List.mem_append.mp hx).imp_right List.mem_singleton.mp
  refine ⟨h.clientId, h.armed, fun c' x hx hcl => ?_, fun c' => ?_, fun sid' c' pc hx => ?_,
    fun sid' c' o hx => ?_, fun sid' c' hs' => ?_⟩
  · rcases hmem hx with hold' | rfl
    · obtain ⟨hnone, hrest⟩ := h.closing c' x hold' hcl
      refine ⟨fun sid' hs' => ?_, hrest⟩
      rcases Table.mem_put.mp hs' with heq | ⟨hs', -⟩
      · exact hno x hold' ((Prod.mk.inj heq).2 ▸ hcl)
      · exact hnone sid' hs'
    · exact absurd hcl Bool.false_ne_true
  · rw [List.countP_append, List.countP_singleton]
    exact h.closings c'
  · rcases hmem hx with hx | heq
    · obtain ⟨hs', hses⟩ := h.connecting sid' c' pc hx
      exact ⟨hold hs', hses⟩
    · obtain ⟨rfl, rfl, rfl⟩ := SenderTask.connection.inj heq
      exact ⟨Table.mem_put.mpr (Or.inl rfl), fun o ho => absurd ho (Option.not_mem_none o)⟩
  · rcases hmem hx with hx | heq
    · exact hsock (h.stopping sid' c' o hx)
    · obtain ⟨-, -, hpc⟩ := SenderTask.connection.inj heq
      cases hpc
  · rcases Table.mem_put.mp hs' with heq | ⟨hs', -⟩
    · obtain ⟨rfl, rfl⟩ := Prod.mk.inj heq
      exact Or.inl ⟨_, List.mem_append_right _ (List.mem_singleton_self _)⟩
    · refine (h.connected sid' c' hs').imp ?_ ?_
      · exact fun ⟨pc, hpc⟩ => ⟨pc, List.mem_append_left _ hpc⟩
      · exact fun ⟨o, ho, hsk, harm⟩ => ⟨o, ho, hsock hsk, harm⟩

/-- What `disconnect` does before anything else, where the socket is its
client's only one. -/
theorem Inv.pop {s : EventSender C M S} [DecidableEq S] (h : s.Inv) {sid : S} {c : C}
    (hsid : (sid, c) ∈ s.sockIdToClientId)
    (honly : ∀ sid', (sid', c) ∈ s.sockIdToClientId → sid' = sid)
    (hno : ∀ sid' pc, .connection sid' c pc ∉ s.tasks) :
    Inv { s with sockIdToClientId := s.sockIdToClientId.delete fun p => p.1 = sid } := by
  have hkeep : ∀ {sid' c'}, (sid', c') ∈ s.sockIdToClientId → c' ≠ c →
      (sid', c') ∈ s.sockIdToClientId.delete fun p => p.1 = sid := by
    intro sid' c' hs' hne
    refine Table.mem_delete.mpr ⟨hs', decide_eq_false fun heq => hne ?_⟩
    exact congrArg Prod.snd (Table.eq_of_key_eq hs' hsid heq)
  have hother : ∀ {sid' c'}, (sid', c') ∈ s.sockIdToClientId.delete (fun p => p.1 = sid) →
      (sid', c') ∈ s.sockIdToClientId ∧ c' ≠ c := by
    intro sid' c' hs'
    obtain ⟨hs', hne⟩ := Table.mem_delete.mp hs'
    refine ⟨hs', ?_⟩
    rintro rfl
    exact of_decide_eq_false hne (honly sid' hs')
  have hsock : ∀ {c' o}, c' ≠ c → s.Socketed c' o →
      Socketed { s with sockIdToClientId := s.sockIdToClientId.delete fun p => p.1 = sid } c' o :=
    fun hne ⟨sid', h₁, h₂⟩ => ⟨sid', h₁, hkeep h₂ hne⟩
  refine ⟨h.clientId, h.armed, fun c' x hx hcl => ?_, h.closings, fun sid' c' pc hx => ?_,
    fun sid' c' o hx => ?_, fun sid' c' hs' => ?_⟩
  · obtain ⟨hnone, hrest⟩ := h.closing c' x hx hcl
    exact ⟨fun sid' hs' => hnone sid' (hother hs').1, hrest⟩
  · have hne : c' ≠ c := fun heq => hno sid' pc (heq ▸ hx)
    obtain ⟨hs', hses⟩ := h.connecting sid' c' pc hx
    exact ⟨hkeep hs' hne, hses⟩
  · have hne : c' ≠ c := fun heq => hno sid' _ (heq ▸ hx)
    exact hsock hne (h.stopping sid' c' o hx)
  · obtain ⟨hs', hne⟩ := hother hs'
    exact (h.connected sid' c' hs').imp_right fun ⟨o, ho, hsk, harm⟩ => ⟨o, ho, hsock hne hsk, harm⟩

/-- Changing a session object, where no listed session loses its socket. -/
theorem Inv.modifyObject {s : EventSender C M S} (h : s.Inv) {o : ℕ}
    {f : SessionObject C M S → SessionObject C M S}
    (hclient : ∀ obj, (f obj).clientId = obj.clientId)
    (htimeout : ∀ obj, (f obj).timeout = obj.timeout)
    (hsock : ∀ c o', (c, o') ∈ s.sessions → s.Socketed c o' → (s.modifyObject o f).Socketed c o') :
    (s.modifyObject o f).Inv := by
  refine ⟨fun c o' ho' => ?_, fun t o' ht => ?_, h.closing, h.closings, h.connecting,
    fun sid c o' hx => ?_, fun sid c hs' => ?_⟩
  · rw [clientIdOf_modifyObject hclient]
    exact h.clientId c o' ho'
  · rw [timeoutOf_modifyObject htimeout]
    exact h.armed t o' ht
  · exact hsock c o' ((h.connecting sid c _ hx).2 o' rfl) (h.stopping sid c o' hx)
  · exact (h.connected sid c hs').imp_right fun ⟨o', ho', hsk, harm⟩ =>
      ⟨o', ho', hsock c o' ho' hsk, harm⟩

/-- Sending and flushing keep the invariant. -/
theorem Inv.stepSession {s : EventSender C M S} (h : s.Inv) (o : ℕ) {i : SessionInput M S}
    (hset : ∀ sid, i ≠ .setSocket sid) (hremove : i ≠ .removeSocket) :
    (s.modifyObject o (stepSession i)).Inv := by
  refine h.modifyObject (fun _ => rfl) (fun _ => rfl) fun c o' _ ⟨sid, h₁, h₂⟩ => ⟨sid, ?_, h₂⟩
  rw [sockIdOf_modifyObject (sockId_stepSession hset hremove)]
  exact h₁

/-- A session belongs to one client. -/
theorem Inv.client_eq {s : EventSender C M S} (h : s.Inv) {c c' : C} {o : ℕ}
    (ho : (c, o) ∈ s.sessions) (ho' : (c', o) ∈ s.sessions) : c = c' :=
  Option.some.inj ((h.clientId c o ho).symm.trans (h.clientId c' o ho'))

/-- **`setSocket`** gives the session a connected socket of its client. -/
theorem Inv.setSocket {s : EventSender C M S} (h : s.Inv) {c : C} {o : ℕ} {sid : S}
    (ho : (c, o) ∈ s.sessions) (hsid : (sid, c) ∈ s.sockIdToClientId)
    {f : SessionObject C M S → SessionObject C M S}
    (hclient : ∀ obj, (f obj).clientId = obj.clientId)
    (htimeout : ∀ obj, (f obj).timeout = obj.timeout)
    (hf : ∀ obj, (f obj).session.sockId = some sid) :
    (s.modifyObject o f).Inv ∧ (s.modifyObject o f).Socketed c o := by
  have hnew : (s.modifyObject o f).Socketed c o := by
    obtain ⟨obj, hobj, -⟩ := Option.map_eq_some_iff.mp (h.clientId c o ho)
    refine ⟨sid, ?_, hsid⟩
    simp [sockIdOf, EventSender.modifyObject, hobj, hf]
  refine ⟨h.modifyObject hclient htimeout fun c' o' ho' hsk => ?_, hnew⟩
  by_cases heq : o' = o
  · subst heq
    rwa [h.client_eq ho' ho]
  · obtain ⟨sid', h₁, h₂⟩ := hsk
    exact ⟨sid', (sockIdOf_modifyObject_ne heq).trans h₁, h₂⟩

/-- **`Session.removeSocket`** clears a socket that is no longer connected. -/
theorem Inv.clearSocket {s : EventSender C M S} (h : s.Inv) {c : C} {o : ℕ}
    (ho : (c, o) ∈ s.sessions) (hno : ∀ sid, (sid, c) ∉ s.sockIdToClientId) :
    (s.modifyObject o (EventSender.stepSession .removeSocket)).Inv := by
  refine h.modifyObject (fun _ => rfl) (fun _ => rfl) fun c' o' ho' ⟨sid', h₁, h₂⟩ => ?_
  by_cases heq : o' = o
  · subst heq
    exact absurd (h.client_eq ho' ho ▸ h₂) (hno sid')
  · exact ⟨sid', (sockIdOf_modifyObject_ne heq).trans h₁, h₂⟩

/-- Timers that stop waiting. -/
theorem Inv.setTimers {s : EventSender C M S} (h : s.Inv) {timers : List SessionTimer}
    (hsub : ∀ t o : ℕ, timers[t]? = some ⟨o, .armed⟩ → s.timers[t]? = some ⟨o, .armed⟩) :
    Inv { s with timers := timers } := by
  have harm : ∀ {o}, s.NoArmed o → NoArmed { s with timers := timers } o := fun hno t ht =>
    hno t (hsub t _ ht)
  refine ⟨h.clientId, fun t o ht => h.armed t o (hsub t o ht), fun c x hx hcl => ?_, h.closings,
    h.connecting, h.stopping, fun sid c hs' => ?_⟩
  · obtain ⟨hnone, o, ho, hno, hses⟩ := h.closing c x hx hcl
    exact ⟨hnone, o, ho, harm hno, hses⟩
  · exact (h.connected sid c hs').imp_right fun ⟨o, ho, hsk, hno⟩ => ⟨o, ho, hsk, harm hno⟩

/-- **`stopTimeout`** leaves a listed session without a waiting timer. -/
theorem Inv.stopTimeout {s : EventSender C M S} (h : s.Inv) {c : C} {o : ℕ}
    (ho : (c, o) ∈ s.sessions) : (s.stopTimeout o).Inv ∧ (s.stopTimeout o).NoArmed o := by
  obtain ⟨obj, hobj, -⟩ := Option.map_eq_some_iff.mp (h.clientId c o ho)
  have hstop : s.stopTimeout o =
      { s with timers := s.timers.modify obj.timeout SessionTimer.cancel } := by
    rw [EventSender.stopTimeout, hobj]
  -- a timer that waits afterwards waited before, and is not the one cancelled
  have hwait : ∀ t o' : ℕ, (s.timers.modify obj.timeout SessionTimer.cancel)[t]? =
      some ⟨o', .armed⟩ → s.timers[t]? = some ⟨o', .armed⟩ ∧ t ≠ obj.timeout := by
    intro t o' ht
    rw [List.getElem?_modify] at ht
    obtain ⟨x, hx, heq⟩ := Option.map_eq_some_iff.mp ht
    by_cases htime : obj.timeout = t
    · rw [if_pos htime, SessionTimer.cancel] at heq
      split at heq
      · cases heq
      · subst heq
        exact absurd rfl ‹_›
    · rw [if_neg htime] at heq
      exact ⟨heq ▸ hx, fun h' => htime h'.symm⟩
  rw [hstop]
  refine ⟨h.setTimers fun t o' ht => (hwait t o' ht).1, fun t ht => ?_⟩
  obtain ⟨hold, hne⟩ := hwait t o ht
  obtain ⟨c', -, htime⟩ := h.armed t o hold
  rw [timeoutOf, hobj] at htime
  exact hne (Option.some.inj htime).symm

@[simp] theorem startSession_frame (s : EventSender C M S) (c : C) :
    (s.startSession c).1.tasks = s.tasks ∧
      (s.startSession c).1.sockIdToClientId = s.sockIdToClientId := by
  rw [startSession]
  split <;> exact ⟨rfl, rfl⟩

/-- **`startSession`** answers the listed session of the client. -/
theorem Inv.startSession {s : EventSender C M S} (h : s.Inv) (c : C) :
    (s.startSession c).1.Inv ∧ (c, (s.startSession c).2) ∈ (s.startSession c).1.sessions := by
  rw [EventSender.startSession]
  split
  · rename_i o hfind
    obtain ⟨hmem, rfl⟩ := Table.find?_eq_some.mp hfind
    exact ⟨h, hmem⟩
  rename_i hfind
  have hnew : c ∉ s.sessions.keys := Table.find?_eq_none.mp hfind
  have hself : (c, s.objects.length) ∈ s.sessions.put (c, s.objects.length) :=
    Table.mem_put.mpr (Or.inl rfl)
  have hold : ∀ {p : C × ℕ}, p ∈ s.sessions → p ∈ s.sessions.put (c, s.objects.length) :=
    fun {p} hp => Table.mem_put.mpr (Or.inr ⟨hp, fun heq : p.1 = c =>
      hnew (heq ▸ Table.key_mem_keys hp)⟩)
  -- the sessions listed before are objects made before, which stay as they are
  have hlt : ∀ {c' o}, (c', o) ∈ s.sessions → o < s.objects.length := fun {c' o} ho => by
    obtain ⟨obj, hobj, -⟩ := Option.map_eq_some_iff.mp (h.clientId c' o ho)
    exact (List.getElem?_eq_some_iff.mp hobj).1
  have hobj : ∀ {c' o}, (c', o) ∈ s.sessions →
      (s.objects ++ [⟨c, s.timers.length, .start⟩])[o]? = s.objects[o]? :=
    fun ho => List.getElem?_append_left (hlt ho)
  have harm : ∀ {t o : ℕ}, (s.timers ++ [⟨s.objects.length, .armed⟩])[t]? = some ⟨o, .armed⟩ →
      s.timers[t]? = some ⟨o, .armed⟩ ∨ (t = s.timers.length ∧ o = s.objects.length) := by
    intro t o ht
    rw [List.getElem?_append] at ht
    split at ht
    · exact Or.inl ht
    · obtain ⟨hlen, heq⟩ := List.getElem?_eq_some_iff.mp ht
      rw [List.length_singleton] at hlen
      rw [List.getElem_singleton] at heq
      exact Or.inr ⟨by omega, (SessionTimer.mk.inj heq).1.symm⟩
  refine ⟨⟨fun c' o ho => ?_, fun t o ht => ?_, fun c' x hx hcl => ?_, h.closings,
    fun sid c' pc hx => ?_, fun sid c' o hx => ?_, fun sid c' hs' => ?_⟩, hself⟩
  · rcases Table.mem_put.mp ho with heq | ⟨ho, -⟩
    · obtain ⟨rfl, rfl⟩ := Prod.mk.inj heq
      simp [clientIdOf]
    · rw [clientIdOf, hobj ho]
      exact h.clientId c' o ho
  · rcases harm ht with ht | ⟨rfl, rfl⟩
    · obtain ⟨c', ho, htime⟩ := h.armed t o ht
      exact ⟨c', hold ho, by rwa [timeoutOf, hobj ho]⟩
    · exact ⟨c, hself, by simp [timeoutOf]⟩
  · obtain ⟨hnone, o, ho, hno, hses⟩ := h.closing c' x hx hcl
    refine ⟨hnone, o, hold ho, fun t ht => ?_, hses⟩
    rcases harm ht with ht | ⟨-, rfl⟩
    · exact hno t ht
    · exact absurd (hlt ho) (Nat.lt_irrefl _)
  · obtain ⟨hs', hses⟩ := h.connecting sid c' pc hx
    exact ⟨hs', fun o ho => hold (hses o ho)⟩
  · obtain ⟨sid', h₁, h₂⟩ := h.stopping sid c' o hx
    exact ⟨sid', by rwa [sockIdOf, hobj ((h.connecting sid c' _ hx).2 o rfl)], h₂⟩
  · refine (h.connected sid c' hs').imp_right fun ⟨o, ho, ⟨sid', h₁, h₂⟩, hno⟩ =>
      ⟨o, hold ho, ⟨sid', by rwa [sockIdOf, hobj ho], h₂⟩, fun t ht => ?_⟩
    rcases harm ht with ht | ⟨-, rfl⟩
    · exact hno t ht
    · exact absurd (hlt ho) (Nat.lt_irrefl _)

/-- **`startTimeout`** may start a timer for a client without sockets and
without a waiting timer. -/
theorem Inv.startTimeout {s : EventSender C M S} (h : s.Inv) {c : C} {o : ℕ}
    (ho : (c, o) ∈ s.sessions) (hno : s.NoArmed o) (hcl : ∀ x ∈ s.tasks, ¬x.closes c = true)
    (hsid : ∀ sid, (sid, c) ∉ s.sockIdToClientId) : (s.startTimeout o).Inv := by
  have hother : ∀ {c' o'}, (c', o') ∈ s.sessions → c' ≠ c → o' ≠ o := fun ho' hne heq =>
    hne (h.client_eq (heq ▸ ho') ho)
  have harm : ∀ {t o' : ℕ}, (s.startTimeout o).timers[t]? = some ⟨o', .armed⟩ →
      (s.timers[t]? = some ⟨o', .armed⟩ ∧ o' ≠ o) ∨ (t = s.timers.length ∧ o' = o) := by
    intro t o' ht
    rw [EventSender.startTimeout, List.getElem?_append] at ht
    split at ht
    · exact Or.inl ⟨ht, fun heq => hno t (heq ▸ ht)⟩
    · obtain ⟨hlen, heq⟩ := List.getElem?_eq_some_iff.mp ht
      rw [List.length_singleton] at hlen
      rw [List.getElem_singleton] at heq
      exact Or.inr ⟨by omega, (SessionTimer.mk.inj heq).1.symm⟩
  have hclient : (s.startTimeout o).clientIdOf = s.clientIdOf :=
    clientIdOf_modifyObject (f := fun obj => { obj with timeout := s.timers.length }) fun _ => rfl
  have hsock : (s.startTimeout o).sockIdOf = s.sockIdOf :=
    sockIdOf_modifyObject (f := fun obj => { obj with timeout := s.timers.length }) fun _ => rfl
  refine ⟨fun c' o' ho' => ?_, fun t o' ht => ?_, fun c' x hx hx' => ?_, h.closings, h.connecting,
    fun sid c' o' hx => ?_, fun sid c' hs' => ?_⟩
  · rw [hclient]
    exact h.clientId c' o' ho'
  · rcases harm ht with ⟨ht, hne⟩ | ⟨rfl, rfl⟩
    · obtain ⟨c', ho', htime⟩ := h.armed t o' ht
      exact ⟨c', ho', (timeoutOf_modifyObject_ne hne).trans htime⟩
    · obtain ⟨obj, hobj, -⟩ := Option.map_eq_some_iff.mp (h.clientId c o' ho)
      exact ⟨c, ho, by simp [timeoutOf, EventSender.startTimeout, EventSender.modifyObject, hobj]⟩
  · obtain ⟨hnone, o', ho', hno', hses⟩ := h.closing c' x hx hx'
    refine ⟨hnone, o', ho', fun t ht => ?_, hses⟩
    rcases harm ht with ⟨ht, -⟩ | ⟨-, rfl⟩
    · exact hno' t ht
    · exact hother ho' (fun heq => hcl x hx (heq ▸ hx')) rfl
  · obtain ⟨sid', h₁, h₂⟩ := h.stopping sid c' o' hx
    exact ⟨sid', by rw [hsock]; exact h₁, h₂⟩
  · refine (h.connected sid c' hs').imp_right fun ⟨o', ho', ⟨sid', h₁, h₂⟩, hno'⟩ =>
      ⟨o', ho', ⟨sid', by rw [hsock]; exact h₁, h₂⟩, fun t ht => ?_⟩
    rcases harm ht with ⟨ht, -⟩ | ⟨-, rfl⟩
    · exact hno' t ht
    · exact hother ho' (fun heq => hsid sid (heq ▸ hs')) rfl

/-- **`endSession`** may drop the session of a client without sockets. -/
theorem Inv.endSession {s : EventSender C M S} (h : s.Inv) {c : C} {o : ℕ}
    (ho : (c, o) ∈ s.sessions) (hno : s.NoArmed o) (hcl : ∀ x ∈ s.tasks, ¬x.closes c = true)
    (hsid : ∀ sid, (sid, c) ∉ s.sockIdToClientId) : (s.endSession c).Inv := by
  have hkeep : ∀ {c' o'}, (c', o') ∈ s.sessions → c' ≠ c → (c', o') ∈ (s.endSession c).sessions :=
    fun ho' hne => Table.mem_delete.mpr ⟨ho', decide_eq_false hne⟩
  refine ⟨fun c' o' ho' => h.clientId c' o' (Table.mem_delete.mp ho').1, fun t o' ht => ?_,
    fun c' x hx hx' => ?_, h.closings, fun sid c' pc hx => ?_, h.stopping, fun sid c' hs' => ?_⟩
  · obtain ⟨c', ho', htime⟩ := h.armed t o' ht
    refine ⟨c', hkeep ho' ?_, htime⟩
    rintro rfl
    exact hno t (session_eq ho' ho ▸ ht)
  · obtain ⟨hnone, o', ho', hno', hses⟩ := h.closing c' x hx hx'
    exact ⟨hnone, o', hkeep ho' fun heq => hcl x hx (heq ▸ hx'), hno', hses⟩
  · obtain ⟨hs', hses⟩ := h.connecting sid c' pc hx
    exact ⟨hs', fun o' ho' => hkeep (hses o' ho') fun heq => hsid sid (heq ▸ hs')⟩
  · exact (h.connected sid c' hs').imp_right fun ⟨o', ho', hsk, hno'⟩ =>
      ⟨o', hkeep ho' fun heq => hsid sid (heq ▸ hs'), hsk, hno'⟩

/-! ### The runs without overlaps -/

/-- **No overlap**: a socket connects while no disconnect handler and no
callback of a timer of its client is under way; it disconnects when it is its
client's only one and no connection handler of the client is under way; and no
timer of a client runs out while a connection handler of the client is under
way. -/
def Apart (s : EventSender C M S) : SenderInput C M S → Prop
  | .connect _ (some c) => ∀ task ∈ s.tasks, ¬task.closes c
  | .disconnect sid => ∀ p ∈ s.sockIdToClientId, p.1 = sid →
      (∀ q ∈ s.sockIdToClientId, q.2 = p.2 → q.1 = sid) ∧ ∀ task ∈ s.tasks, ¬task.connects p.2
  | .fire t => ∀ timer ∈ s.timers[t]?, ∀ c ∈ s.clientIdOf timer.session,
      ∀ task ∈ s.tasks, ¬task.connects c
  | .connect _ none | .send .. | .task _ | .flush .. => True

@[simp] theorem connects_connection (sid : S) (c : C) (pc : ConnectionAt) :
    (SenderTask.connection sid c pc : SenderTask C M S).connects c = true :=
  decide_eq_true rfl

/-- A timer that runs out for a client without a connection handler finds
nothing in its way. -/
theorem Inv.fire {s : EventSender C M S} (h : s.Inv) {t o : ℕ}
    (ht : s.timers[t]? = some ⟨o, .armed⟩) {obj : SessionObject C M S}
    (hobj : s.objects[o]? = some obj)
    (hno : ∀ task ∈ s.tasks, ¬task.connects obj.clientId = true) :
    Inv { s with
      timers := s.timers.set t ⟨o, .expired⟩
      tasks := s.tasks ++ [.timeout obj.clientId] } := by
  obtain ⟨c, ho, htime⟩ := h.armed t o ht
  have hclient : obj.clientId = c := by
    have heq := h.clientId c o ho
    rw [clientIdOf, hobj] at heq
    exact Option.some.inj heq
  rw [hclient] at hno ⊢
  have hset : ∀ t' o' : ℕ, (s.timers.set t ⟨o, .expired⟩)[t']? = some ⟨o', .armed⟩ →
      s.timers[t']? = some ⟨o', .armed⟩ ∧ t' ≠ t := by
    intro t' o' ht'
    rw [List.getElem?_set] at ht'
    split at ht'
    · split at ht' <;> simp at ht'
    · rename_i hne
      exact ⟨ht', fun heq => hne heq.symm⟩
  refine (h.setTimers fun t' o' ht' => (hset t' o' ht').1).push (by simp) fun c' hc' => ?_
  obtain rfl : c = c' := of_decide_eq_true hc'
  refine ⟨fun x hx hcl => ?_, fun sid hs => ?_, o, ho, fun t' ht' => ?_, fun o' ho' => ?_⟩
  · obtain ⟨-, o', ho', hno', -⟩ := h.closing c x hx hcl
    exact hno' t (session_eq ho ho' ▸ ht)
  · rcases h.connected sid c hs with ⟨pc, hpc⟩ | ⟨o', ho', -, hno'⟩
    · exact hno _ hpc (connects_connection sid c pc)
    · exact hno' t (session_eq ho ho' ▸ ht)
  · obtain ⟨hold, hne⟩ := hset t' o ht'
    obtain ⟨_, -, htime'⟩ := h.armed t' o hold
    exact hne (Option.some.inj (htime'.symm.trans htime))
  · exact absurd ho' (Option.not_mem_none o')

/-- A disconnect handler begins. -/
theorem Inv.disconnect {s : EventSender C M S} [DecidableEq S] (h : s.Inv) {sid : S} {c : C}
    (hsid : (sid, c) ∈ s.sockIdToClientId)
    (honly : ∀ sid', (sid', c) ∈ s.sockIdToClientId → sid' = sid)
    (hno : ∀ task ∈ s.tasks, ¬task.connects c = true) :
    Inv { s with
      sockIdToClientId := s.sockIdToClientId.delete fun p => p.1 = sid
      tasks := s.tasks ++ [.disconnect c .removeSocket] } := by
  have hnone : ∀ sid' pc, .connection sid' c pc ∉ s.tasks := fun sid' pc hmem =>
    hno _ hmem (connects_connection sid' c pc)
  refine (h.pop hsid honly hnone).push (by simp) fun c' hc' => ?_
  obtain rfl : c = c' := of_decide_eq_true hc'
  refine ⟨fun x hx hcl => (h.closing c x hx hcl).1 sid hsid, fun sid' hs' => ?_, ?_⟩
  · obtain ⟨hs', hne⟩ := Table.mem_delete.mp hs'
    exact of_decide_eq_false hne (honly sid' hs')
  · rcases h.connected sid c hsid with ⟨pc, hpc⟩ | ⟨o, ho, -, harm⟩
    · exact absurd hpc (hnone sid pc)
    · exact ⟨o, ho, harm, fun o' ho' => absurd ho' (Option.not_mem_none o')⟩

/-- **Every section of every call keeps the invariant.** -/
theorem Inv.stepTask {s : EventSender C M S} [DecidableEq S] (h : s.Inv) {k : ℕ}
    {task : SenderTask C M S} (hk : s.tasks[k]? = some task) :
    Inv { (s.stepTask task).1 with tasks := Lib.advance s.tasks k (s.stepTask task).2 } := by
  have htask : task ∈ s.tasks := List.mem_of_getElem? hk
  match task with
  | .connection sid c .startSession =>
    obtain ⟨hinv, ho⟩ := h.startSession c
    obtain ⟨htasks, -⟩ := startSession_frame s c
    rw [← htasks] at hk ⊢
    refine hinv.advance hk _ (fun n hn => ?_) (fun sid' c' pc hn => ?_) fun sid' c' pc ht => ?_
    · obtain rfl := Option.some.inj hn
      exact fun c' hc' => absurd hc' Bool.false_ne_true
    · obtain ⟨rfl, rfl, rfl⟩ := SenderTask.connection.inj (Option.some.inj hn)
      refine ⟨⟨_, rfl⟩, fun o' ho' => Option.some.inj ho' ▸ ho, fun o' ho' => ?_⟩
      cases ho'
    · obtain ⟨rfl, rfl, -⟩ := SenderTask.connection.inj ht
      exact Or.inl ⟨_, rfl⟩
  | .connection sid c (.setSocket o) =>
    obtain ⟨hsid, hses⟩ := h.connecting sid c _ htask
    obtain ⟨hinv, hsock⟩ := h.setSocket (hses o rfl) hsid
      (f := fun obj => { obj with session := { obj.session with sockId := some sid } })
      (fun _ => rfl) (fun _ => rfl) fun _ => rfl
    refine hinv.advance hk _ (fun n hn => ?_) (fun sid' c' pc hn => ?_) fun sid' c' pc ht => ?_
    · obtain rfl := Option.some.inj hn
      exact fun c' hc' => absurd hc' Bool.false_ne_true
    · obtain ⟨rfl, rfl, rfl⟩ := SenderTask.connection.inj (Option.some.inj hn)
      refine ⟨⟨_, rfl⟩, fun o' ho' => Option.some.inj ho' ▸ hses o rfl, fun o' ho' => ?_⟩
      obtain rfl := ConnectionAt.stopTimeout.inj ho'
      exact hsock
    · obtain ⟨rfl, rfl, -⟩ := SenderTask.connection.inj ht
      exact Or.inl ⟨_, rfl⟩
  | .connection sid c (.stopTimeout o) =>
    have ho : (c, o) ∈ s.sessions := (h.connecting sid c _ htask).2 o rfl
    obtain ⟨hinv, hno⟩ := h.stopTimeout ho
    have hfinal := hinv.stepSession o (i := .flush) (by simp) (by simp)
    have hset : ((s.stopTimeout o).modifyObject o (EventSender.stepSession .flush)).Settled c := by
      obtain ⟨sid', h₁, h₂⟩ := h.stopping sid c o htask
      refine ⟨o, ho, ⟨sid', ?_, h₂⟩, hno⟩
      rw [sockIdOf_modifyObject (sockId_stepSession (by simp) (by simp))]
      exact h₁
    refine hfinal.advance hk none (fun n hn => ?_) (fun sid' c' pc hn => ?_)
      fun sid' c' pc ht => ?_
    · exact absurd hn (Option.not_mem_none n)
    · cases hn
    · obtain ⟨rfl, rfl, -⟩ := SenderTask.connection.inj ht
      exact Or.inr hset
  | .disconnect c .removeSocket =>
    obtain ⟨-, o, ho, -⟩ := h.closing c _ htask (decide_eq_true rfl)
    have hstep : s.stepTask (.disconnect c .removeSocket) =
        (s, some (.disconnect c (.clearSocket o))) := by
      rw [EventSender.stepTask, Table.find?_eq_some.mpr ⟨ho, rfl⟩]
    rw [hstep]
    refine h.advance hk _ (fun n hn c' hc' => ?_) (by simp) (by simp)
    obtain rfl := Option.some.inj hn
    obtain rfl : c = c' := of_decide_eq_true hc'
    exact ⟨decide_eq_true rfl, fun o' ho' => Option.some.inj ho' ▸ ho⟩
  | .disconnect c (.clearSocket o) =>
    obtain ⟨hnone, o', ho', -, hses⟩ := h.closing c _ htask (decide_eq_true rfl)
    obtain rfl : o = o' := hses o rfl
    refine (h.clearSocket ho' hnone).advance hk _ (fun n hn c' hc' => ?_)
      (by simp [EventSender.stepTask]) (by simp)
    obtain rfl := Option.some.inj hn
    obtain rfl : c = c' := of_decide_eq_true hc'
    exact ⟨decide_eq_true rfl, fun o' ho'' => Option.some.inj ho'' ▸ ho'⟩
  | .disconnect c (.startTimeout o) =>
    obtain ⟨hnone, o', ho', hno, hses⟩ := h.closing c _ htask (decide_eq_true rfl)
    obtain rfl : o = o' := hses o rfl
    exact (h.finish hk (by simp)).startTimeout ho' hno
      (h.not_closes_of_eraseIdx hk (decide_eq_true rfl)) hnone
  | .timeout c =>
    obtain ⟨hnone, o, ho, hno, -⟩ := h.closing c _ htask (decide_eq_true rfl)
    exact (h.finish hk (by simp)).endSession ho hno
      (h.not_closes_of_eraseIdx hk (decide_eq_true rfl)) hnone
  | .sendClient c contents none =>
    obtain ⟨hinv, -⟩ := h.startSession c
    obtain ⟨htasks, -⟩ := startSession_frame s c
    rw [← htasks] at hk ⊢
    refine hinv.advance hk _ (fun n hn c' hc' => ?_) (by simp [EventSender.stepTask]) (by simp)
    obtain rfl := Option.some.inj hn
    exact absurd hc' Bool.false_ne_true
  | .sendClient c contents (some o) =>
    exact (h.stepSession o (i := .send contents) (by simp) (by simp)).finish hk (by simp)

/-- **What every event and every step keeps**, in the runs without overlaps. -/
theorem inv_step {s t : EventSender C M S} [DecidableEq S] {i : SenderInput C M S} (h : s.Inv)
    (hapart : s.Apart i) (hstep : s.step i = some t) : t.Inv := by
  match i with
  | .connect sid none =>
    obtain rfl := Option.some.inj hstep
    exact h
  | .connect sid (some c) =>
    rw [step] at hstep
    split at hstep
    · cases hstep
    · rename_i hnew
      obtain rfl := Option.some.inj hstep
      exact h.connect hnew hapart
  | .disconnect sid =>
    rw [step] at hstep
    split at hstep
    · obtain rfl := Option.some.inj hstep
      exact h
    · rename_i c hfind
      obtain ⟨hsid, rfl⟩ := Table.find?_eq_some.mp hfind
      obtain rfl := Option.some.inj hstep
      obtain ⟨honly, hno⟩ := hapart _ hsid rfl
      exact h.disconnect hsid (fun sid' hs' => honly _ hs' rfl) hno
  | .send c contents =>
    obtain rfl := Option.some.inj hstep
    exact h.push (by simp) fun c' hc' => absurd hc' Bool.false_ne_true
  | .fire t =>
    rw [step] at hstep
    split at hstep
    · rename_i o ht
      obtain ⟨obj, hobj, rfl⟩ := Option.map_eq_some_iff.mp hstep
      exact h.fire ht hobj (hapart _ ht obj.clientId (by simp [clientIdOf, hobj]))
    · cases hstep
  | .task k =>
    obtain ⟨task, hk, rfl⟩ := Option.map_eq_some_iff.mp hstep
    exact h.stepTask hk
  | .flush o k ok =>
    obtain rfl := Option.some.inj hstep
    exact h.stepSession o (by simp) (by simp)

/-- No connection or disconnect handler is under way. -/
def Idle (s : EventSender C M S) : Prop :=
  ∀ task ∈ s.tasks, (∀ sid c pc, task ≠ .connection sid c pc) ∧ ∀ c pc, task ≠ .disconnect c pc

/-- `sessions` holds a session for the client, and its `sock_id` is one of the
client's connected sockets. -/
def Served (s : EventSender C M S) (c : C) : Prop :=
  ∃ o obj sid, (c, o) ∈ s.sessions ∧ s.objects[o]? = some obj ∧ obj.session.sockId = some sid ∧
    (sid, c) ∈ s.sockIdToClientId

/-- **A client with a connected socket is served at one of its sockets** in
every state without a handler under way, in every run without overlaps. -/
theorem served [DecidableEq S] {is : List (SenderInput C M S)} {t : EventSender C M S}
    (hrun : (machine C M S).run start is = some t) (hapart : (machine C M S).Meets Apart start is)
    (hidle : t.Idle) {sid : S} {c : C} (hsid : (sid, c) ∈ t.sockIdToClientId) : t.Served c := by
  have h : t.Inv := Machine.invariant_of_meets (fun _ _ _ => inv_step) inv_start hapart hrun
  rcases h.connected sid c hsid with ⟨pc, hpc⟩ | ⟨o, ho, ⟨sid', h₁, h₂⟩, -⟩
  · exact absurd rfl ((hidle _ hpc).1 sid c pc)
  · obtain ⟨obj, hobj, hsock⟩ := Option.bind_eq_some_iff.mp h₁
    exact ⟨o, obj, sid', ho, hobj, hsock, h₂⟩

/-! ### Two runs of one client -/

instance [DecidableEq S] (s : EventSender C M S) : ∀ i, Decidable (s.Apart i)
  | .connect _ (some c) => inferInstanceAs (Decidable (∀ task ∈ s.tasks, ¬task.closes c))
  | .disconnect sid => inferInstanceAs (Decidable (∀ p ∈ s.sockIdToClientId, p.1 = sid →
      (∀ q ∈ s.sockIdToClientId, q.2 = p.2 → q.1 = sid) ∧ ∀ task ∈ s.tasks, ¬task.connects p.2))
  | .fire t => inferInstanceAs (Decidable (∀ timer ∈ s.timers[t]?,
      ∀ c ∈ s.clientIdOf timer.session, ∀ task ∈ s.tasks, ¬task.connects c))
  | .connect _ none => .isTrue trivial
  | .send .. => .isTrue trivial
  | .task _ => .isTrue trivial
  | .flush .. => .isTrue trivial

/-- A socket connects, disconnects, and another one connects before the timer
runs out. -/
def reconnect : List (SenderInput String String ℕ) :=
  [.connect 1 (some "client"), .task 0, .task 0, .task 0, .disconnect 1, .task 0, .task 0,
    .task 0, .connect 2 (some "client"), .task 0, .task 0, .task 0]

/-- A reconnecting client is served at its new socket. -/
theorem reconnect_served :
    ∃ t, (machine String String ℕ).run start reconnect = some t ∧ t.Served "client" := by
  have hrun : (machine String String ℕ).run start reconnect = some _ := rfl
  refine ⟨_, hrun, served hrun ?_ ?_ (show (2, "client") ∈ _ from ?_)⟩
  · decide
  · exact fun task h => absurd h List.not_mem_nil
  · decide

/-- A client's second socket connects before the first one disconnects. -/
def overlap : List (SenderInput String String ℕ) :=
  [.connect 1 (some "client"), .task 0, .task 0, .task 0, .flush 0 0 true,
    .connect 2 (some "client"), .task 0, .task 0, .task 0, .flush 0 0 true,
    .disconnect 1, .task 0, .task 0, .task 0]

/-- **The first of two sockets that goes takes the second along**: no call is
under way, socket 2 is connected, and the session has no socket. -/
theorem overlap_loses :
    ∃ t, (machine String String ℕ).run start overlap = some t ∧ t.Idle ∧
      (2, "client") ∈ t.sockIdToClientId ∧ ¬t.Served "client" := by
  have hrun : ((machine String String ℕ).run start overlap).map (fun t =>
      (decide (t.tasks = []), decide ((2, "client") ∈ t.sockIdToClientId),
        t.objects.map fun obj => obj.session.sockId)) = some (true, true, [none]) := by
    decide
  obtain ⟨t, ht, heq⟩ := Option.map_eq_some_iff.mp hrun
  obtain ⟨htasks, hrest⟩ := Prod.mk.inj heq
  obtain ⟨hmem, hobjects⟩ := Prod.mk.inj hrest
  refine ⟨t, ht, fun task h => ?_, of_decide_eq_true hmem, ?_⟩
  · rw [of_decide_eq_true htasks] at h
    cases h
  · rintro ⟨o, obj, sid, -, hobj, hsock, -⟩
    have hnone : obj.session.sockId ∈ t.objects.map fun obj => obj.session.sockId :=
      List.mem_map_of_mem (List.mem_of_getElem? hobj)
    rw [hobjects, List.mem_singleton, hsock] at hnone
    cases hnone

end EventSender

end UsbipIce
