import UsbipIce.Control.Reservations
import UsbipIce.EventSender.Serial
import UsbipIce.Lib.Refinement

/-!
# Who receives an event

An event about a device goes to whoever holds the device when it is sent. Between
the lookup and the emit there are a call of `sendClient`, a session that may be
dropped and made anew, a queue, a socket that may be gone by the time the batch
read with it is emitted, and the handlers of sockets of other clients; and the
device may have changed hands.

None of it mixes clients up. A session has, and a call of `flush` emits to, only
sockets of the client it was made for, and emits no more than it was given
(`UsbipIce.EventSender.Sound`). So what comes out at the sockets of a client is, no
more often, what was sent to this client, and an event sent for a serial was sent
to the holder of the moment (`UsbipIce.Notifier.emits_le_addressed`).

The id of a socket is its own: no two clients ever have sockets of one id.
-/

namespace UsbipIce

open Lib

/-! ### One session -/

namespace Session

variable {M S : Type*} {s t : Session M S} {i : SessionInput M S}

/-- **A step of a session makes no message**: there are no more of them than were
sent. -/
theorem accounted_le_step (hs : s.accounted ≤ (s.sent : Multiset M)) (h : s.step i = some t) :
    t.accounted ≤ (t.sent : Multiset M) := by
  have hbalance := sent_step h
  refine le_of_add_le_add_right (a := s.accounted) ?_
  rw [hbalance, add_comm t.accounted, add_assoc]
  exact add_le_add hs (Multiset.le_add_right _ _)

/-- The session has the socket, is about to emit to it, or has emitted to it. -/
def Uses (s : Session M S) (sid : S) : Prop :=
  s.sockId = some sid ∨ (∃ messages, .emitting messages sid ∈ s.flushes) ∨
    ∃ message, (message, sid) ∈ s.emitted

/-- What a step has to leave alone. -/
theorem Uses.frame {sid : S} (h : t.Uses sid) (hsock : t.sockId = some sid → s.Uses sid)
    (hflushes : ∀ messages, .emitting messages sid ∈ t.flushes → s.Uses sid)
    (hemitted : ∀ message, (message, sid) ∈ t.emitted → s.Uses sid) : s.Uses sid := by
  rcases h with h | ⟨messages, h⟩ | ⟨message, h⟩
  · exact hsock h
  · exact hflushes messages h
  · exact hemitted message h

/-- **A step of a call of `flush`** uses no other socket. -/
theorem uses_stepFlush {k : ℕ} {f : Flush M S} (hf : s.flushes[k]? = some f) (ok : Bool) {sid : S}
    (h : (s.stepFlush k ok f).Uses sid) : s.Uses sid := by
  have herase : ∀ messages, .emitting messages sid ∈ s.flushes.eraseIdx k → s.Uses sid :=
    fun messages hmem => Or.inr (Or.inl ⟨messages, List.mem_of_mem_eraseIdx hmem⟩)
  have hemitted : ∀ message, (message, sid) ∈ s.emitted → s.Uses sid :=
    fun message hmem => Or.inr (Or.inr ⟨message, hmem⟩)
  rw [stepFlush.eq_def] at h
  split at h
  · split at h
    · exact h.frame Or.inl herase hemitted
    · exact h.frame Or.inl herase hemitted
    · -- the batch goes to the socket of the moment
      rename_i sockId _ hsock _
      refine h.frame Or.inl (fun messages hmem => ?_) hemitted
      rcases (mem_set_of_some hf).mp hmem with heq | hmem
      · obtain ⟨-, rfl⟩ := Flush.emitting.inj heq
        exact Or.inl hsock
      · exact herase messages hmem
  · exact h.frame Or.inl herase hemitted
  · rename_i message messages sockId
    have huses : s.Uses sockId :=
      Or.inr (Or.inl ⟨message :: messages, List.mem_of_getElem? hf⟩)
    split at h
    · refine h.frame Or.inl (fun rest hmem => ?_) fun m hmem => ?_
      · rcases (mem_set_of_some hf).mp hmem with heq | hmem
        · obtain ⟨-, rfl⟩ := Flush.emitting.inj heq
          exact huses
        · exact herase rest hmem
      · rcases List.mem_append.mp hmem with hmem | hmem
        · exact hemitted m hmem
        · obtain ⟨-, rfl⟩ := Prod.mk.inj (List.mem_singleton.mp hmem)
          exact huses
    · refine h.frame Or.inl (fun rest hmem => ?_) hemitted
      rcases (mem_set_of_some hf).mp hmem with heq | hmem
      · cases heq
      · exact herase rest hmem
  · exact h.frame Or.inl herase hemitted

/-- **A step uses no socket** but the one that is set. -/
theorem uses_step (hset : ∀ sid, i ≠ .setSocket sid) (h : s.step i = some t) {sid : S}
    (hu : t.Uses sid) : s.Uses sid := by
  have hbegin : ∀ messages, .emitting messages sid ∈ s.flushes ++ [.begin] → s.Uses sid := by
    intro messages hmem
    rcases List.mem_append.mp hmem with hmem | hmem
    · exact Or.inr (Or.inl ⟨messages, hmem⟩)
    · cases List.mem_singleton.mp hmem
  cases i with
  | send data =>
    obtain rfl := Option.some.inj h
    exact hu.frame Or.inl hbegin fun message hmem => Or.inr (Or.inr ⟨message, hmem⟩)
  | setSocket sid' => exact absurd rfl (hset sid')
  | removeSocket =>
    obtain rfl := Option.some.inj h
    exact hu.frame (fun hsock => by cases hsock)
      (fun messages hmem => Or.inr (Or.inl ⟨messages, hmem⟩))
      fun message hmem => Or.inr (Or.inr ⟨message, hmem⟩)
  | flush =>
    obtain rfl := Option.some.inj h
    exact hu.frame Or.inl hbegin fun message hmem => Or.inr (Or.inr ⟨message, hmem⟩)
  | step k ok =>
    obtain ⟨f, hf, rfl⟩ := Option.map_eq_some_iff.mp h
    exact uses_stepFlush hf ok hu

end Session

/-! ### All sessions -/

namespace EventSender

variable {C M S : Type*}

/-- **A session object with sockets of its client**, which emits no more than it
was given. -/
structure SoundObject (client : S → C) (obj : SessionObject C M S) : Prop where
  accounted : obj.session.accounted ≤ (obj.session.sent : Multiset M)
  sockets : ∀ sid, obj.session.Uses sid → client sid = obj.clientId

/-- **The invariant**, where `client` tells whose a socket is. -/
structure Sound (client : S → C) (s : EventSender C M S) : Prop where
  addressed : s.Addressed
  objects : ∀ (o : ℕ) obj, s.objects[o]? = some obj → SoundObject client obj
  connections : ∀ sid c pc, .connection sid c pc ∈ s.tasks → client sid = c
  setting : ∀ sid c o, .connection sid c (.setSocket o) ∈ s.tasks → s.clientIdOf o = some c

/-- The socket that connects is one of the client. -/
def Fits (client : S → C) : SenderInput C M S → Prop
  | .connect sid (some c) => client sid = c
  | _ => True

variable {client : S → C} {s t : EventSender C M S}

theorem sound_start : Sound client (start : EventSender C M S) where
  addressed := addressed_start
  objects := fun _ _ h => absurd (List.mem_of_getElem? h) List.not_mem_nil
  connections := fun _ _ _ h => absurd h List.not_mem_nil
  setting := fun _ _ _ h => absurd h List.not_mem_nil

/-- A new session object. -/
theorem soundObject_start (c : C) (timeout : ℕ) :
    SoundObject client (⟨c, timeout, .start⟩ : SessionObject C M S) := by
  refine ⟨le_refl _, fun sid hu => ?_⟩
  rcases hu with hu | ⟨messages, hu⟩ | ⟨message, hu⟩
  · cases hu
  · exact absurd hu List.not_mem_nil
  · exact absurd hu List.not_mem_nil

/-- A session goes on. -/
theorem SoundObject.stepSession {obj : SessionObject C M S} (h : SoundObject client obj)
    {i : SessionInput M S} (hset : ∀ sid, i ≠ .setSocket sid) :
    SoundObject client (stepSession i obj) := by
  cases hstep : obj.session.step i with
  | none =>
    have hsame : EventSender.stepSession i obj = obj := by
      rw [EventSender.stepSession, hstep]
      rfl
    exact hsame.symm ▸ h
  | some session =>
    have hnew : EventSender.stepSession i obj = { obj with session := session } := by
      rw [EventSender.stepSession, hstep]
      rfl
    rw [hnew]
    exact ⟨Session.accounted_le_step h.accounted hstep,
      fun sid hu => h.sockets sid (Session.uses_step hset hstep hu)⟩

/-- A session is given a socket of its client. -/
theorem SoundObject.setSocket {obj : SessionObject C M S} (h : SoundObject client obj) {sid : S}
    (hsid : client sid = obj.clientId) :
    SoundObject client { obj with session := { obj.session with sockId := some sid } } := by
  refine ⟨h.accounted, fun sid' hu => ?_⟩
  rcases hu with hu | hu
  · obtain rfl := Option.some.inj hu
    exact hsid
  · exact h.sockets sid' (Or.inr hu)

/-- What holds of an object before and after a change of one. -/
theorem objects_modify {P : SessionObject C M S → Prop} {o : ℕ}
    {f : SessionObject C M S → SessionObject C M S}
    (hobjects : ∀ (j : ℕ) obj, s.objects[j]? = some obj → P obj)
    (hf : ∀ obj, s.objects[o]? = some obj → P obj → P (f obj)) :
    ∀ (j : ℕ) obj, (s.modifyObject o f).objects[j]? = some obj → P obj := by
  intro j obj hj
  rw [modifyObject, List.getElem?_modify, Option.map_eq_map] at hj
  obtain ⟨old, hold, rfl⟩ := Option.map_eq_some_iff.mp hj
  split
  · rename_i heq
    subst heq
    exact hf old hold (hobjects o old hold)
  · exact hobjects j old hold

section Steps

variable [DecidableEq C]

/-- `startSession` adds at most a new object. -/
theorem Sound.objects_startSession (hs : s.Sound client) (c : C) :
    ∀ (o : ℕ) obj, (s.startSession c).1.objects[o]? = some obj → SoundObject client obj := by
  intro o obj ho
  rw [EventSender.startSession] at ho
  split at ho
  · exact hs.objects o obj ho
  · rcases List.mem_append.mp (List.mem_of_getElem? ho) with hmem | hmem
    · obtain ⟨j, hj⟩ := List.mem_iff_getElem?.mp hmem
      exact hs.objects j obj hj
    · rw [List.mem_singleton.mp hmem]
      exact soundObject_start c _

/-- **The next section of a call** leaves sockets and messages where they
belong. -/
theorem Sound.objects_stepTask (hs : s.Sound client) {task : SenderTask C M S}
    (htask : task ∈ s.tasks) :
    ∀ (o : ℕ) obj, (s.stepTask task).1.objects[o]? = some obj → SoundObject client obj := by
  cases task with
  | connection sid c pc =>
    cases pc with
    | startSession => exact hs.objects_startSession c
    | setSocket o =>
      refine objects_modify hs.objects fun obj hobj hsound => hsound.setSocket ?_
      -- the object is one of the client whose handler this is
      have hclient := hs.setting sid c o htask
      rw [clientIdOf, hobj] at hclient
      exact (hs.connections sid c _ htask).trans (Option.some.inj hclient).symm
    | stopTimeout o =>
      exact objects_modify (s := s.stopTimeout o) hs.objects
        fun obj _ hsound => hsound.stepSession (by simp)
  | disconnect c pc =>
    cases pc with
    | removeSocket =>
      rw [stepTask]
      split
      · exact hs.objects
      · exact hs.objects
    | clearSocket o =>
      exact objects_modify hs.objects fun obj _ hsound => hsound.stepSession (by simp)
    | startTimeout o =>
      exact objects_modify hs.objects fun obj _ hsound => ⟨hsound.accounted, hsound.sockets⟩
  | timeout c => exact hs.objects
  | sendClient c m found =>
    cases found with
    | none => exact hs.objects_startSession c
    | some o => exact objects_modify hs.objects fun obj _ hsound => hsound.stepSession (by simp)

/-- A handler of a connection goes on with its own socket, and with a session of its
client. -/
theorem Sound.next_stepTask (hs : s.Sound client) {task : SenderTask C M S}
    (htask : task ∈ s.tasks) {sid : S} {c : C} {pc : ConnectionAt}
    (hnext : (s.stepTask task).2 = some (.connection sid c pc)) :
    client sid = c ∧ ∀ o, pc = .setSocket o → (s.stepTask task).1.clientIdOf o = some c := by
  cases task with
  | connection sid' c' pc' =>
    cases pc' with
    | startSession =>
      obtain ⟨rfl, rfl, rfl⟩ := SenderTask.connection.inj (Option.some.inj hnext)
      refine ⟨hs.connections _ _ _ htask, fun o ho => ?_⟩
      rw [← ConnectionAt.setSocket.inj ho]
      exact (startSession_spec hs.addressed _).2.2
    | setSocket o =>
      obtain ⟨rfl, rfl, rfl⟩ := SenderTask.connection.inj (Option.some.inj hnext)
      exact ⟨hs.connections _ _ _ htask, fun o ho => by cases ho⟩
    | stopTimeout o => cases hnext
  | disconnect c' pc' =>
    cases pc' with
    | removeSocket =>
      rw [stepTask] at hnext
      split at hnext
      · cases hnext
      · cases hnext
    | clearSocket o => cases hnext
    | startTimeout o => cases hnext
  | timeout c' => cases hnext
  | sendClient c' m found =>
    cases found with
    | none => cases hnext
    | some o => cases hnext

variable [DecidableEq S]

omit [DecidableEq C] [DecidableEq S] in
/-- A call is added, and no session changes. -/
theorem Sound.push (hs : s.Sound client) (ht : t.Addressed) (hobjects : t.objects = s.objects)
    {task : SenderTask C M S} (htasks : t.tasks = s.tasks ++ [task])
    (hconnection : ∀ sid c pc, task = .connection sid c pc →
      client sid = c ∧ pc = .startSession) : t.Sound client := by
  have hmem : ∀ sid c pc, .connection sid c pc ∈ t.tasks →
      .connection sid c pc ∈ s.tasks ∨ client sid = c ∧ pc = .startSession := by
    intro sid c pc h
    rw [htasks] at h
    rcases List.mem_append.mp h with h | h
    · exact Or.inl h
    · exact Or.inr (hconnection sid c pc (List.mem_singleton.mp h).symm)
  refine ⟨ht, hobjects ▸ hs.objects, fun sid c pc h => ?_, fun sid c o h => ?_⟩
  · rcases hmem sid c pc h with h | h
    · exact hs.connections sid c pc h
    · exact h.1
  · rcases hmem sid c _ h with h | h
    · rw [clientIdOf, hobjects]
      exact hs.setting sid c o h
    · cases h.2

/-- **Every step keeps the invariant.** -/
theorem sound_step {i : SenderInput C M S} (hs : s.Sound client) (hi : Fits client i)
    (h : s.step i = some t) : t.Sound client := by
  have ht : t.Addressed := (appended_step hs.addressed h).1
  cases i with
  | connect sid c =>
    cases c with
    | none =>
      obtain rfl := Option.some.inj h
      exact hs
    | some c =>
      rw [step] at h
      split at h
      · cases h
      · obtain rfl := Option.some.inj h
        refine hs.push ht rfl rfl fun sid' c' pc heq => ?_
        obtain ⟨rfl, rfl, rfl⟩ := SenderTask.connection.inj heq
        exact ⟨hi, rfl⟩
  | disconnect sid =>
    rw [step] at h
    split at h
    · obtain rfl := Option.some.inj h
      exact hs
    · obtain rfl := Option.some.inj h
      exact hs.push ht rfl rfl fun sid' c' pc heq => by cases heq
  | send c m =>
    obtain rfl := Option.some.inj h
    exact hs.push ht rfl rfl fun sid' c' pc heq => by cases heq
  | fire n =>
    rw [step] at h
    split at h
    · obtain ⟨obj, -, rfl⟩ := Option.map_eq_some_iff.mp h
      exact hs.push ht rfl rfl fun sid' c' pc heq => by cases heq
    · cases h
  | task k =>
    have hclients : ∀ {o : ℕ} {c : C}, s.clientIdOf o = some c → t.clientIdOf o = some c :=
      fun ho => clientIdOf_step ho h
    obtain ⟨task, hk, rfl⟩ := Option.map_eq_some_iff.mp h
    have htask := List.mem_of_getElem? hk
    refine ⟨ht, hs.objects_stepTask htask, fun sid c pc hmem => ?_, fun sid c o hmem => ?_⟩
    · rcases (mem_advance hk).mp hmem with hnext | hmem
      · exact (hs.next_stepTask htask hnext).1
      · exact hs.connections sid c pc (List.mem_of_mem_eraseIdx hmem)
    · rcases (mem_advance hk).mp hmem with hnext | hmem
      · exact (hs.next_stepTask htask hnext).2 o rfl
      · exact hclients (hs.setting sid c o (List.mem_of_mem_eraseIdx hmem))
  | flush o k ok =>
    have hclients : ∀ {o : ℕ} {c : C}, s.clientIdOf o = some c → t.clientIdOf o = some c :=
      fun ho => clientIdOf_step ho h
    obtain rfl := Option.some.inj h
    exact ⟨ht, objects_modify hs.objects fun obj _ hsound => hsound.stepSession (by simp),
      hs.connections, fun sid c o' hmem => hclients (hs.setting sid c o' hmem)⟩

end Steps

/-! ### What comes out -/

/-- What has been emitted successfully, with the sockets. -/
def emits (s : EventSender C M S) : Multiset (M × S) :=
  (s.objects.map fun obj => (obj.session.emitted : Multiset (M × S))).sum

/-- One session object emits no more than was appended to it, for its client. -/
theorem SoundObject.emitted_le {obj : SessionObject C M S} (h : SoundObject client obj) :
    ((obj.session.emitted : Multiset (M × S)).map fun e => (client e.2, e.1)) ≤
      appendedTo obj := by
  have hclient : ((obj.session.emitted : Multiset (M × S)).map fun e => (client e.2, e.1)) =
      ((obj.session.emitted.map Prod.fst : List M) : Multiset M).map (Prod.mk obj.clientId) := by
    rw [Multiset.map_coe, Multiset.map_coe, List.map_map]
    refine congrArg _ (List.map_congr_left fun e he => ?_)
    exact congrArg (Prod.mk · e.1) (h.sockets e.2 (Or.inr (Or.inr ⟨e.1, he⟩)))
  have hle : ((obj.session.emitted.map Prod.fst : List M) : Multiset M) ≤ obj.session.sent :=
    ((Multiset.le_add_right _ _).trans (Multiset.le_add_right _ _)).trans h.accounted
  rw [hclient]
  exact Multiset.map_le_map hle

/-- **What comes out at the sockets of a client was appended for it.** -/
theorem Sound.emits_le (hs : s.Sound client) :
    (s.emits.map fun e => (client e.2, e.1)) ≤ s.appended := by
  have hall : ∀ objects : List (SessionObject C M S),
      (∀ obj ∈ objects, SoundObject client obj) →
      ((objects.map fun obj => (obj.session.emitted : Multiset (M × S))).sum.map
        fun e => (client e.2, e.1)) ≤ (objects.map appendedTo).sum := by
    intro objects h
    induction objects with
    | nil => exact le_refl _
    | cons obj objects ih =>
      rw [List.map_cons, List.sum_cons, Multiset.map_add, List.map_cons, List.sum_cons]
      exact add_le_add (h obj List.mem_cons_self).emitted_le
        (ih fun obj' hobj' => h obj' (List.mem_cons_of_mem _ hobj'))
  refine hall s.objects fun obj hobj => ?_
  obtain ⟨o, ho⟩ := List.mem_iff_getElem?.mp hobj
  exact hs.objects o obj ho

/-- **What comes out at the sockets of a client was sent to it**, in every run. -/
theorem emits_le_sends [DecidableEq C] [DecidableEq S] {is : List (SenderInput C M S)}
    (hfits : ∀ i ∈ is, Fits client i) (h : (machine C M S).run start is = some t) :
    (t.emits.map fun e => (client e.2, e.1)) ≤ (is.map SenderInput.sends).sum := by
  have hmeets : (machine C M S).Meets (fun _ i => Fits client i) start is :=
    Machine.meets_of_mem hfits start
  have ht : t.Sound client := Machine.invariant_of_meets (I := Sound client)
    (fun _ _ _ hs hi hstep => sound_step hs hi hstep) sound_start hmeets h
  have happended := (appended_run addressed_start h).2
  have hnone : (start : EventSender C M S).appended + (start : EventSender C M S).sending = 0 := rfl
  rw [hnone, zero_add] at happended
  rw [← happended]
  exact ht.emits_le.trans (Multiset.le_add_right _ _)

end EventSender

/-! ### Events about devices -/

/-- `EventSender.sendClientJson`, by what `__packageContents` returns. -/
def sendClientJson (contents : Returned) (clientId : String) : Performed :=
  match contents.truthy, contents with
  | true, .str text => ⟨some (clientId, text), .bool true⟩
  | _, _ => ⟨none, .bool false⟩

/-- A call of `sendClient` by `sendClientJson`. -/
theorem client_sendClientJson {dumped : Option String} {clientId : String} {p : String × String}
    (h : (sendClientJson (packaged dumped) clientId).client = some p) :
    ∃ m, dumped = some m ∧ p = (clientId, m) := by
  cases dumped with
  | none => cases h
  | some m =>
    by_cases hm : m = ""
    · simp [packaged, sendClientJson, Returned.truthy, hm] at h
    · simp only [packaged, sendClientJson, Returned.truthy, decide_eq_true hm,
        Option.some.injEq] at h
      exact ⟨m, rfl, h.symm⟩

/-- A call of `sendClient` by `sendSerialJson`. -/
theorem client_sendSerialJson {dumped : Option String} {clientId : Returned}
    {p : String × String} (h : (sendSerialJson (packaged dumped) clientId).client = some p) :
    ∃ c m, clientId = .str c ∧ dumped = some m ∧ p = (c, m) := by
  cases dumped with
  | none => cases h
  | some m =>
    by_cases hm : m = ""
    · simp [packaged, sendSerialJson, Returned.truthy, hm] at h
    · simp only [packaged, sendSerialJson, Returned.truthy, decide_eq_true hm] at h
      cases clientId with
      | none => cases h
      | bool b => cases h
      | str c =>
        by_cases hc : c = ""
        · simp [sendSerial, hc] at h
        · simp only [sendSerial, if_neg hc, Option.some.injEq] at h
          exact ⟨c, m, rfl, rfl, h.symm⟩

/-- The lookup answers the holder. -/
theorem holder_of_getReservationClientId {db : Option Database} {serial c : String}
    (h : getReservationClientId db serial = .str c) :
    (db.bind fun db => db.holder serial) = some c := by
  rw [getReservationClientId_eq] at h
  cases hholder : db.bind fun db => db.holder serial with
  | some c' =>
    rw [hholder] at h
    exact congrArg some (Returned.str.inj h)
  | none =>
    rw [hholder] at h
    dsimp only at h
    split at h
    · cases h
    · cases h

/-- The step is a call of `sendClient`. -/
def SenderInput.isSend {C M S : Type*} : SenderInput C M S → Bool
  | .send .. => true
  | .connect .. | .disconnect _ | .fire _ | .task _ | .flush .. => false

theorem SenderInput.sends_of_not_isSend {C M S : Type*} {i : SenderInput C M S}
    (h : i.isSend = false) : i.sends = 0 := by
  cases i with
  | send c m => cases h
  | connect sid c | disconnect sid | fire n | task k | flush o k ok => rfl

/-- An event sender, with the database. -/
structure Notifier (S : Type*) where
  database : Database
  sender : EventSender String String S

/-- What happens next. -/
inductive NotifierInput (V S : Type*) where
  /-- Anyone changes the database. -/
  | commit (database : Database)
  /-- `sendSerialJson` is called, and its lookup reaches the database or does
  not. -/
  | sendSerialJson (serial : String) (contents : Table (String × V) Prod.fst) (reached : Bool)
  /-- `sendClientJson` is called. -/
  | sendClientJson (serial clientId : String) (contents : Table (String × V) Prod.fst)
  /-- Sockets, timers, and the calls under way. -/
  | sender (i : SenderInput String String S)

namespace Notifier

variable {V S : Type*} (dumps : Package V → Option String) (text : String → V)

/-- The call of `sendClient` that is made. -/
def sends (s : Notifier S) : NotifierInput V S → Option (String × String)
  | .sendSerialJson serial contents reached =>
    (sendSerialJson (packaged (dumps (packageContents text serial contents)))
      (getReservationClientId (if reached then some s.database else none) serial)).client
  | .sendClientJson serial clientId contents =>
    (sendClientJson (packaged (dumps (packageContents text serial contents))) clientId).client
  | .commit _ | .sender _ => none

/-- **To whom an event is addressed**: to the holder of the device, or to the client
named; and what is to be sent. -/
def addressed (s : Notifier S) : NotifierInput V S → Option (String × String)
  | .sendSerialJson serial contents _ =>
    (s.database.holder serial).bind fun c =>
      (dumps (packageContents text serial contents)).map (Prod.mk c)
  | .sendClientJson serial clientId contents =>
    (dumps (packageContents text serial contents)).map (Prod.mk clientId)
  | .commit _ | .sender _ => none

variable [DecidableEq S]

/-- What the event sender does at a step. -/
def senderInput (s : Notifier S) : NotifierInput V S → Option (SenderInput String String S)
  | .commit _ => none
  | .sender i => some i
  | .sendSerialJson serial contents reached =>
    (s.sends dumps text (.sendSerialJson serial contents reached)).map fun p => .send p.1 p.2
  | .sendClientJson serial clientId contents =>
    (s.sends dumps text (.sendClientJson serial clientId contents)).map fun p => .send p.1 p.2

/-- The event sender does something, or nothing. -/
def perform (s : Notifier S) : Option (SenderInput String String S) → Option (Notifier S)
  | none => some s
  | some i => (s.sender.step i).map fun sender => { s with sender := sender }

/-- One step; `sendClient` is called by the two methods alone. -/
def step (s : Notifier S) : NotifierInput V S → Option (Notifier S)
  | .commit database => some { s with database := database }
  | .sender i => if i.isSend then none else s.perform (some i)
  | .sendSerialJson serial contents reached =>
    s.perform (s.senderInput dumps text (.sendSerialJson serial contents reached))
  | .sendClientJson serial clientId contents =>
    s.perform (s.senderInput dumps text (.sendClientJson serial clientId contents))

/-- The event sender with the database as a machine. -/
def machine : Machine (Notifier S) (NotifierInput V S) := ⟨step dumps text⟩

/-- Nothing has been sent. -/
def start (database : Database) : Notifier S := ⟨database, .start⟩

variable {dumps text} {s t : Notifier S}

omit [DecidableEq S] in
/-- **What is sent was addressed to that client.** -/
theorem addressed_of_sends {i : NotifierInput V S} {p : String × String}
    (h : s.sends dumps text i = some p) : s.addressed dumps text i = some p := by
  cases i with
  | commit database => cases h
  | sender i => cases h
  | sendClientJson serial clientId contents =>
    obtain ⟨m, hdumped, rfl⟩ := client_sendClientJson h
    rw [addressed, hdumped]
    rfl
  | sendSerialJson serial contents reached =>
    obtain ⟨c, m, hclient, hdumped, rfl⟩ := client_sendSerialJson h
    have hholder := holder_of_getReservationClientId hclient
    rw [addressed, hdumped]
    cases reached with
    | false => cases hholder
    | true =>
      have hholds : s.database.holder serial = some c := hholder
      rw [hholds]
      rfl

/-- Where the event sender does something, or nothing. -/
theorem run_perform {j : Option (SenderInput String String S)} (h : s.perform j = some t) :
    (EventSender.machine String String S).run s.sender j.toList = some t.sender := by
  cases j with
  | none =>
    obtain rfl := Option.some.inj h
    rfl
  | some j =>
    obtain ⟨sender, hstep, rfl⟩ := Option.map_eq_some_iff.mp h
    rw [Option.toList_some, Machine.run_singleton]
    exact hstep

variable (dumps text) in
/-- The event sender, as it takes part. -/
def refinement : Refinement (machine (S := S) dumps text)
    (EventSender.machine String String S) where
  abs := sender
  input := fun s i => s.senderInput dumps text i
  run_input := by
    intro s i t h
    cases i with
    | commit database =>
      obtain rfl := Option.some.inj h
      rfl
    | sendSerialJson serial contents reached => exact run_perform h
    | sendClientJson serial clientId contents => exact run_perform h
    | sender i => exact run_perform (Option.ite_none_left_eq_some.mp h).2

/-- What the event sender is given at a step was addressed so. -/
theorem sends_senderInput {i : NotifierInput V S} (h : s.step dumps text i = some t) :
    ((s.senderInput dumps text i).toList.map SenderInput.sends).sum ≤
      ((s.addressed dumps text i).toList : Multiset (String × String)) := by
  have hsends : ∀ i, ((s.sends dumps text i).map fun p : String × String =>
      (SenderInput.send p.1 p.2 : SenderInput String String S)).toList.map SenderInput.sends =
      ((s.sends dumps text i).toList.map fun p => ({p} : Multiset (String × String))) := by
    intro i
    cases s.sends dumps text i with
    | none => rfl
    | some p => rfl
  have hle : ∀ i, ((s.sends dumps text i).toList.map fun p =>
      ({p} : Multiset (String × String))).sum ≤ ((s.addressed dumps text i).toList :
        Multiset (String × String)) := by
    intro i
    cases hi : s.sends dumps text i with
    | none => exact Multiset.zero_le _
    | some p =>
      rw [addressed_of_sends hi]
      exact le_refl _
  cases i with
  | commit database => exact Multiset.zero_le _
  | sendSerialJson serial contents reached =>
    rw [senderInput, hsends]
    exact hle _
  | sendClientJson serial clientId contents =>
    rw [senderInput, hsends]
    exact hle _
  | sender i =>
    have hnot : i.isSend = false := eq_false_of_ne_true (Option.ite_none_left_eq_some.mp h).1
    rw [senderInput, Option.toList_some, List.map_singleton, List.sum_singleton,
      SenderInput.sends_of_not_isSend hnot]
    exact Multiset.zero_le _

/-- **What the event sender is given in a run was addressed so.** -/
theorem sends_trace {is : List (NotifierInput V S)}
    (h : (machine dumps text).run s is = some t) :
    (((refinement dumps text).trace s is).map SenderInput.sends).sum ≤
      (machine dumps text).total (fun s i => ((s.addressed dumps text i).toList :
        Multiset (String × String))) s is := by
  induction is generalizing s with
  | nil => exact le_refl _
  | cons i is ih =>
    obtain ⟨u, hu, hrest⟩ := Machine.run_cons_eq_some.mp h
    rw [Refinement.trace_cons hu, List.map_append, List.sum_append, Machine.total_cons hu]
    exact add_le_add (sends_senderInput hu) (ih hrest)

/-- The sockets that connect in a run. -/
theorem fits_trace {client : S → String} {is : List (NotifierInput V S)}
    (hclient : ∀ sid c, NotifierInput.sender (.connect sid (some c)) ∈ is → client sid = c) :
    ∀ j ∈ (refinement dumps text).trace s is, EventSender.Fits client j := by
  refine Refinement.forall_mem_trace fun i hi s' j hj => ?_
  cases i with
  | commit database => cases hj
  | sendSerialJson serial contents reached =>
    obtain ⟨p, -, rfl⟩ := Option.map_eq_some_iff.mp hj
    trivial
  | sendClientJson serial clientId contents =>
    obtain ⟨p, -, rfl⟩ := Option.map_eq_some_iff.mp hj
    trivial
  | sender i =>
    obtain rfl := Option.some.inj hj
    cases i with
    | connect sid c =>
      cases c with
      | none => trivial
      | some c => exact hclient sid c hi
    | disconnect sid | send c m | fire n | task k | flush o k ok => trivial

/-- **Who receives an event, and how often.** In every run, what has been emitted
successfully at the sockets of each client is, no more often, what was addressed to
this client: by name, or as the holder of a device when the event was sent. -/
theorem emits_le_addressed {client : S → String} {database : Database}
    {is : List (NotifierInput V S)}
    (hclient : ∀ sid c, NotifierInput.sender (.connect sid (some c)) ∈ is → client sid = c)
    (h : (machine dumps text).run (start database) is = some t) :
    (t.sender.emits.map fun e => (client e.2, e.1)) ≤
      (machine dumps text).total (fun s i => ((s.addressed dumps text i).toList :
        Multiset (String × String))) (start database) is := by
  have hrun := Refinement.run_trace (R := refinement dumps text) h
  exact (EventSender.emits_le_sends (fits_trace hclient) hrun).trans (sends_trace h)

/-- `json.dumps` of a package whose values are plain strings. -/
def dumpsPlain (p : Package String) : Option String :=
  some ("\x7b\"serial\": \"" ++ p.serial ++ "\", \"contents\": \x7b" ++ String.intercalate ", "
    (p.contents.rows.map fun e => "\"" ++ e.1 ++ "\": \"" ++ e.2 ++ "\"") ++ "\x7d\x7d")

/-- A client connects, and its device announces itself. -/
def announces : List (NotifierInput String ℕ) :=
  [.sender (.connect 1 (some "client")), .sender (.task 0), .sender (.task 0), .sender (.task 0),
    .sendSerialJson "A" ⟨[("event", "initialized")], by decide⟩ true, .sender (.task 0),
    .sender (.task 0), .sender (.flush 0 1 true), .sender (.flush 0 1 true)]

/-- All sockets are of one client. -/
def onlyClient (_ : ℕ) : String := "client"

theorem announces_run :
    ((machine dumpsPlain id).run (start Control.oneReserved) announces).map
      (fun t => Multiset.card t.sender.emits) = some 1 := by
  decide +kernel

theorem announces_received :
    ∃ t, (machine dumpsPlain id).run (start Control.oneReserved) announces = some t ∧
      Multiset.card t.sender.emits = 1 ∧
      (t.sender.emits.map fun e => (onlyClient e.2, e.1)) ≤
        (machine dumpsPlain id).total (fun s i => ((s.addressed dumpsPlain id i).toList :
          Multiset (String × String))) (start Control.oneReserved) announces := by
  obtain ⟨t, ht, hcard⟩ := Option.map_eq_some_iff.mp announces_run
  refine ⟨t, ht, hcard, emits_le_addressed (fun sid c hmem => ?_) ht⟩
  have hc : sid = 1 ∧ c = "client" := by simpa [announces] using hmem
  exact hc.2.symm

end Notifier

end UsbipIce
