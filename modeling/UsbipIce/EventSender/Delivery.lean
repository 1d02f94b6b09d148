import UsbipIce.EventSender.Order
import UsbipIce.EventSender.Sessions

/-!
# What `sendClient` is called with is appended

A call of `sendClient` looks up or makes the session of its client and then
appends its message there, in two sections, and other calls, sockets and timers
come between them; a timer may even end the session. The message is appended all
the same, to an object made for its client: in every run, what has been appended,
to the objects of each client, is what `sendClient` was called with, except for
the calls still under way (`UsbipIce.EventSender.appended_run`).
-/

namespace UsbipIce

open Lib

/-! ### Contents -/

/-- What is serialised for a client: an event, with the serial of its device
beside it. -/
structure Package (V : Type*) where
  serial : String
  contents : Table (String × V) Prod.fst

/-- `__packageContents`, up to `json.dumps`: `text` is how a string is a value of
an event. -/
def packageContents {V : Type*} (text : String → V) (serial : String)
    (contents : Table (String × V) Prod.fst) : Package V :=
  ⟨serial, contents.put ("serial", text serial)⟩

/-! ### Calls -/

/-- The call of `sendClient` that an input makes. -/
def SenderInput.sends {C M S : Type*} : SenderInput C M S → Multiset (C × M)
  | .send clientId contents => {(clientId, contents)}
  | _ => 0

/-- The call of `sendClient` that a call under way is. -/
def SenderTask.sends {C M S : Type*} : SenderTask C M S → Multiset (C × M)
  | .sendClient clientId contents _ => {(clientId, contents)}
  | _ => 0

namespace EventSender

variable {C M S : Type*}

/-! ### What the session objects have been given -/

/-- What was appended to the queue of a session object, for its client. -/
def appendedTo (obj : SessionObject C M S) : Multiset (C × M) :=
  (obj.session.sent : Multiset M).map (Prod.mk obj.clientId)

/-- What was appended to the queues of all session objects, those that
`endSession` has dropped included. -/
def appended (s : EventSender C M S) : Multiset (C × M) := (s.objects.map appendedTo).sum

/-- The calls of `sendClient` under way. -/
def sending (s : EventSender C M S) : Multiset (C × M) := (s.tasks.map SenderTask.sends).sum

/-- The sessions listed, and those that calls of `sendClient` have in hand, are
objects made for the client in question. -/
structure Addressed (s : EventSender C M S) : Prop where
  sessions : ∀ c o, (c, o) ∈ s.sessions → s.clientIdOf o = some c
  sending : ∀ c m o, .sendClient c m (some o) ∈ s.tasks → s.clientIdOf o = some c

theorem addressed_start : (start : EventSender C M S).Addressed :=
  ⟨fun _ _ h => absurd h (Table.not_mem_empty _), fun _ _ _ h => absurd h List.not_mem_nil⟩

theorem appended_modifyObject {s : EventSender C M S} {o : ℕ}
    {f : SessionObject C M S → SessionObject C M S}
    (h : ∀ obj, appendedTo (f obj) = appendedTo obj) :
    (s.modifyObject o f).appended = s.appended := by
  refine congrArg List.sum (List.ext_getElem? fun j => ?_)
  simp only [modifyObject, List.getElem?_map, List.getElem?_modify, Option.map_map,
    Option.map_eq_map]
  refine congrArg (fun g => Option.map g s.objects[j]?) (funext fun obj => ?_)
  by_cases hj : o = j <;> simp [hj, h]

/-- An operation of the session that is no `send` appends nothing. -/
theorem appendedTo_stepSession {i : SessionInput M S} (hi : i.sends = [])
    (obj : SessionObject C M S) : appendedTo (stepSession i obj) = appendedTo obj := by
  rw [stepSession, appendedTo, appendedTo]
  cases hstep : obj.session.step i with
  | none => rfl
  | some t => rw [Option.getD_some, (Session.records_step hstep).1, hi, List.append_nil]

theorem appended_send {s : EventSender C M S} {c : C} {o : ℕ} (h : s.clientIdOf o = some c)
    (m : M) : (s.modifyObject o (stepSession (.send m))).appended = s.appended + {(c, m)} := by
  obtain ⟨obj, hobj, rfl⟩ := Option.map_eq_some_iff.mp h
  have hset : s.objects.modify o (stepSession (.send m)) =
      s.objects.set o (stepSession (.send m) obj) := by
    refine List.ext_getElem? fun j => ?_
    rw [getElem?_set_of_some hobj, List.getElem?_modify]
    by_cases hj : o = j
    · subst hj
      simp [hobj]
    · rw [if_neg fun heq => hj heq.symm]
      simp [hj]
  have hnew : appendedTo (stepSession (.send m) obj) = appendedTo obj + {(obj.clientId, m)} := by
    simp only [appendedTo, stepSession, Session.step, Option.getD_some, Session.coe_snoc,
      Multiset.map_add, Multiset.map_singleton]
  rw [appended, appended, modifyObject, hset, sum_map_set appendedTo hobj,
    sum_map_eraseIdx appendedTo hobj, hnew]
  abel

/-! ### The steps -/

section Steps

variable [DecidableEq C]

omit [DecidableEq C] in
/-- A new object leaves the clients of those there are. -/
theorem clientIdOf_append {s : EventSender C M S} {o : ℕ} {c : C} (h : s.clientIdOf o = some c)
    (obj : SessionObject C M S) :
    ((s.objects ++ [obj])[o]?).map (fun obj => obj.clientId) = some c := by
  obtain ⟨old, hold, -⟩ := Option.map_eq_some_iff.mp h
  rwa [List.getElem?_append_left (List.getElem?_eq_some_iff.mp hold).1]

/-- An object stays the object of its client. -/
theorem clientIdOf_startSession {s : EventSender C M S} {o : ℕ} {c : C}
    (h : s.clientIdOf o = some c) (c' : C) : (s.startSession c').1.clientIdOf o = some c := by
  rw [startSession]
  split
  · exact h
  · exact clientIdOf_append h _

theorem clientIdOf_stepTask {s : EventSender C M S} {o : ℕ} {c : C}
    (h : s.clientIdOf o = some c) (task : SenderTask C M S) :
    (s.stepTask task).1.clientIdOf o = some c := by
  have hmodify : ∀ (o' : ℕ) {f : SessionObject C M S → SessionObject C M S},
      (∀ obj, (f obj).clientId = obj.clientId) → (s.modifyObject o' f).clientIdOf o = some c :=
    fun o' f hf => by rw [clientIdOf_modifyObject hf, h]
  match task with
  | .connection sid c' .startSession | .sendClient c' m none => exact clientIdOf_startSession h c'
  | .connection sid c' (.setSocket o') | .disconnect c' (.clearSocket o')
  | .disconnect c' (.startTimeout o') | .sendClient c' m (some o') => exact hmodify o' fun _ => rfl
  | .connection sid c' (.stopTimeout o') => exact hmodify o' fun _ => rfl
  | .disconnect c' .removeSocket =>
    rw [stepTask]
    split
    · exact h
    · exact h
  | .timeout c' => exact h

theorem clientIdOf_step [DecidableEq S] {s t : EventSender C M S} {o : ℕ} {c : C}
    (h : s.clientIdOf o = some c) {i : SenderInput C M S} (hstep : s.step i = some t) :
    t.clientIdOf o = some c := by
  match i with
  | .connect sid none =>
    obtain rfl := Option.some.inj hstep
    exact h
  | .connect sid (some c') =>
    rw [step] at hstep
    split at hstep
    · cases hstep
    · obtain rfl := Option.some.inj hstep
      exact h
  | .disconnect sid =>
    rw [step] at hstep
    split at hstep
    · obtain rfl := Option.some.inj hstep
      exact h
    · obtain rfl := Option.some.inj hstep
      exact h
  | .send c' m =>
    obtain rfl := Option.some.inj hstep
    exact h
  | .fire n =>
    rw [step] at hstep
    split at hstep
    · obtain ⟨obj, -, rfl⟩ := Option.map_eq_some_iff.mp hstep
      exact h
    · cases hstep
  | .task k =>
    obtain ⟨task, -, rfl⟩ := Option.map_eq_some_iff.mp hstep
    exact clientIdOf_stepTask h task
  | .flush o' k ok =>
    obtain rfl := Option.some.inj hstep
    have hsame : (s.modifyObject o' (stepSession (.step k ok))).clientIdOf = s.clientIdOf :=
      clientIdOf_modifyObject fun _ => rfl
    rw [hsame]
    exact h

/-- **`startSession`** appends nothing, and answers an object of the client. -/
theorem startSession_spec {s : EventSender C M S} (hs : s.Addressed) (c : C) :
    (s.startSession c).1.Addressed ∧ (s.startSession c).1.appended = s.appended ∧
      (s.startSession c).1.clientIdOf (s.startSession c).2 = some c := by
  rw [startSession]
  split
  · rename_i o hfind
    obtain ⟨hmem, rfl⟩ := Table.find?_eq_some.mp hfind
    exact ⟨hs, rfl, hs.sessions _ _ hmem⟩
  · have hnew : ((s.objects ++ [⟨c, s.timers.length, .start⟩])[s.objects.length]?).map
        (fun obj : SessionObject C M S => obj.clientId) = some c := by simp
    refine ⟨⟨fun c' o ho => ?_, fun c' m o ho => clientIdOf_append (hs.sending c' m o ho) _⟩,
      ?_, hnew⟩
    · obtain heq | ⟨ho, -⟩ := Table.mem_put.mp ho
      · obtain ⟨rfl, rfl⟩ := Prod.mk.inj heq
        exact hnew
      · exact clientIdOf_append (hs.sessions c' o ho) _
    · simp [appended, appendedTo, Session.start]

omit [DecidableEq C] in
/-- A step that leaves the clients of the objects alone and lists no new session
leaves everything addressed. -/
theorem Addressed.frame {s t : EventSender C M S} (hs : s.Addressed)
    (hsessions : ∀ p, p ∈ t.sessions → p ∈ s.sessions) (hclient : t.clientIdOf = s.clientIdOf)
    (htasks : ∀ task ∈ t.tasks, task ∈ s.tasks) : t.Addressed := by
  constructor
  · intro c o ho
    rw [hclient]
    exact hs.sessions c o (hsessions _ ho)
  · intro c m o ho
    rw [hclient]
    exact hs.sending c m o (htasks _ ho)

omit [DecidableEq C] in
/-- A change of an object that keeps its client and appends nothing. -/
theorem Addressed.modifyObject {s : EventSender C M S} (hs : s.Addressed) {o : ℕ}
    {f : SessionObject C M S → SessionObject C M S}
    (hclient : ∀ obj, (f obj).clientId = obj.clientId)
    (happended : ∀ obj, appendedTo (f obj) = appendedTo obj) :
    (s.modifyObject o f).Addressed ∧ (s.modifyObject o f).appended = s.appended :=
  ⟨hs.frame (fun _ h => h) (clientIdOf_modifyObject hclient) fun _ h => h,
    appended_modifyObject happended⟩

omit [DecidableEq C] in
theorem Addressed.stepSession {s : EventSender C M S} (hs : s.Addressed) (o : ℕ)
    {i : SessionInput M S} (hi : i.sends = []) :
    (s.modifyObject o (stepSession i)).Addressed ∧
      (s.modifyObject o (stepSession i)).appended = s.appended :=
  hs.modifyObject (fun _ => rfl) (appendedTo_stepSession hi)

/-- **The next section of a call**: what it appends it has been called with. -/
theorem appended_stepTask {s : EventSender C M S} (hs : s.Addressed) {task : SenderTask C M S}
    (htask : task ∈ s.tasks) :
    (s.stepTask task).1.appended + ((s.stepTask task).2.toList.map SenderTask.sends).sum =
        s.appended + task.sends ∧
      (s.stepTask task).1.Addressed ∧ (s.stepTask task).1.tasks = s.tasks ∧
      ∀ c m o, (s.stepTask task).2 = some (.sendClient c m (some o)) →
        (s.stepTask task).1.clientIdOf o = some c := by
  match task with
  | .connection sid c .startSession =>
    obtain ⟨haddressed, happended, -⟩ := startSession_spec hs c
    exact ⟨by simp [stepTask, happended, SenderTask.sends], haddressed,
      (startSession_frame s c).1, by simp [stepTask]⟩
  | .connection sid c (.setSocket o) =>
    obtain ⟨haddressed, happended⟩ := hs.modifyObject (o := o)
      (f := fun obj => { obj with session := { obj.session with sockId := some sid } })
      (fun _ => rfl) fun _ => rfl
    exact ⟨by simp [stepTask, happended, SenderTask.sends], haddressed, rfl, by simp [stepTask]⟩
  | .connection _ _ (.stopTimeout o) =>
    have hstop : (s.stopTimeout o).Addressed := hs.frame (fun _ h => h) rfl fun _ h => h
    obtain ⟨haddressed, happended⟩ := hstop.stepSession o (i := .flush) rfl
    have hsame : (s.stopTimeout o).appended = s.appended := rfl
    exact
      ⟨by simp [stepTask, happended, hsame, SenderTask.sends], haddressed, rfl, by simp [stepTask]⟩
  | .disconnect c .removeSocket =>
    rw [stepTask]
    split
    · exact ⟨by simp [SenderTask.sends], hs, rfl, by simp⟩
    · exact ⟨by simp [SenderTask.sends], hs, rfl, by simp⟩
  | .disconnect c (.clearSocket o) =>
    obtain ⟨haddressed, happended⟩ := hs.stepSession o (i := .removeSocket) rfl
    exact ⟨by simp [stepTask, happended, SenderTask.sends], haddressed, rfl, by simp [stepTask]⟩
  | .disconnect _ (.startTimeout o) =>
    obtain ⟨haddressed, happended⟩ := hs.modifyObject (o := o)
      (f := fun obj => { obj with timeout := s.timers.length }) (fun _ => rfl) fun _ => rfl
    refine ⟨?_, haddressed.frame (fun _ h => h) rfl fun _ h => h, rfl, by simp [stepTask]⟩
    have hsame : (s.startTimeout o).appended = s.appended := happended
    simp [stepTask, hsame, SenderTask.sends]
  | .timeout c =>
    have hend : (s.endSession c).Addressed :=
      hs.frame (fun p hp => (Table.mem_delete.mp hp).1) rfl fun _ h => h
    have hsame : (s.endSession c).appended = s.appended := rfl
    exact ⟨by simp [stepTask, hsame, SenderTask.sends], hend, rfl, by simp [stepTask]⟩
  | .sendClient c m none =>
    obtain ⟨haddressed, happended, hclient⟩ := startSession_spec hs c
    refine ⟨by simp [stepTask, happended, SenderTask.sends], haddressed,
      (startSession_frame s c).1, ?_⟩
    rintro c' m' o' heq
    obtain ⟨rfl, rfl, ho⟩ := SenderTask.sendClient.inj (Option.some.inj heq)
    rw [← Option.some.inj ho]
    exact hclient
  | .sendClient c m (some o) =>
    have hclient := hs.sending c m o htask
    refine ⟨by simp [stepTask, appended_send hclient, SenderTask.sends],
      hs.frame (fun _ h => h) (clientIdOf_modifyObject fun _ => rfl) fun _ h => h, rfl,
      by simp [stepTask]⟩

omit [DecidableEq C] in
/-- A new call that has no session yet. -/
theorem Addressed.push {s : EventSender C M S} (hs : s.Addressed) (task : SenderTask C M S)
    (htask : ∀ c m o, task ≠ .sendClient c m (some o)) :
    Addressed { s with tasks := s.tasks ++ [task] } ∧
      ({ s with tasks := s.tasks ++ [task] } : EventSender C M S).sending =
        s.sending + task.sends := by
  refine ⟨⟨hs.sessions, fun c m o ho => ?_⟩, ?_⟩
  · obtain ho | ho := List.mem_append.mp ho
    · exact hs.sending c m o ho
    · exact absurd (List.mem_singleton.mp ho).symm (htask c m o)
  · simp only [EventSender.sending, List.map_append, List.map_cons, List.map_nil, List.sum_append,
      List.sum_singleton]

variable [DecidableEq S]

/-- **One step conserves what is sent**: a call comes in, is under way, and
appends. -/
theorem appended_step {s t : EventSender C M S} {i : SenderInput C M S} (hs : s.Addressed)
    (h : s.step i = some t) :
    t.Addressed ∧ t.appended + t.sending = s.appended + s.sending + i.sends := by
  match i with
  | .connect sid none =>
    obtain rfl := Option.some.inj h
    exact ⟨hs, (add_zero _).symm⟩
  | .connect sid (some c) =>
    rw [step] at h
    split at h
    · cases h
    · obtain rfl := Option.some.inj h
      have hframe : Addressed { s with sockIdToClientId := s.sockIdToClientId.put (sid, c) } :=
        hs.frame (fun _ h => h) rfl fun _ h => h
      obtain ⟨haddressed, hsending⟩ := hframe.push (.connection sid c .startSession) (by simp)
      exact ⟨haddressed, by rw [hsending]; simp [appended, sending, SenderTask.sends,
        SenderInput.sends]⟩
  | .disconnect sid =>
    rw [step] at h
    split at h
    · obtain rfl := Option.some.inj h
      exact ⟨hs, (add_zero _).symm⟩
    · rename_i c _
      obtain rfl := Option.some.inj h
      have hframe : Addressed { s with
          sockIdToClientId := s.sockIdToClientId.delete fun p => p.1 = sid } :=
        hs.frame (fun _ h => h) rfl fun _ h => h
      obtain ⟨haddressed, hsending⟩ := hframe.push (.disconnect c .removeSocket) (by simp)
      exact ⟨haddressed, by rw [hsending]; simp [appended, sending, SenderTask.sends,
        SenderInput.sends]⟩
  | .send c m =>
    obtain rfl := Option.some.inj h
    obtain ⟨haddressed, hsending⟩ := hs.push (.sendClient c m none) (by simp)
    exact ⟨haddressed, by rw [hsending]; simp [appended, sending, SenderTask.sends,
      SenderInput.sends, add_assoc]⟩
  | .fire n =>
    rw [step] at h
    split at h
    · rename_i o _
      obtain ⟨obj, -, rfl⟩ := Option.map_eq_some_iff.mp h
      have hframe : Addressed { s with timers := s.timers.set n ⟨o, .expired⟩ } :=
        hs.frame (fun _ h => h) rfl fun _ h => h
      obtain ⟨haddressed, hsending⟩ := hframe.push (.timeout obj.clientId) (by simp)
      exact ⟨haddressed, by rw [hsending]; simp [appended, sending, SenderTask.sends,
        SenderInput.sends]⟩
    · cases h
  | .task k =>
    obtain ⟨task, hk, rfl⟩ := Option.map_eq_some_iff.mp h
    obtain ⟨hbalance, haddressed, htasks, hnext⟩ := appended_stepTask hs (List.mem_of_getElem? hk)
    constructor
    · refine ⟨haddressed.sessions, fun c m o ho => ?_⟩
      obtain ho | ho := (mem_advance hk).mp ho
      · exact hnext c m o ho
      · refine haddressed.sending c m o ?_
        rw [htasks]
        exact List.mem_of_mem_eraseIdx ho
    · -- the call that goes on is paid for by what it appends
      have hsending : s.sending = task.sends + ((s.tasks.eraseIdx k).map SenderTask.sends).sum :=
        sum_map_eraseIdx SenderTask.sends hk
      have hadvance : ((advance s.tasks k (s.stepTask task).2).map SenderTask.sends).sum =
          ((s.stepTask task).2.toList.map SenderTask.sends).sum +
            ((s.tasks.eraseIdx k).map SenderTask.sends).sum := by
        rw [((perm_advance hk _).map SenderTask.sends).sum_eq, List.map_append, List.sum_append]
      show (s.stepTask task).1.appended +
          ((advance s.tasks k (s.stepTask task).2).map SenderTask.sends).sum = _
      rw [hadvance, ← add_assoc, hbalance, hsending]
      simp only [SenderInput.sends, add_zero, add_assoc]
  | .flush o k ok =>
    obtain rfl := Option.some.inj h
    obtain ⟨haddressed, happended⟩ := hs.stepSession o (i := .step k ok) rfl
    exact ⟨haddressed, by rw [happended]; simp [sending, modifyObject, SenderInput.sends]⟩

/-- **What is sent is appended**: along every run, whatever comes between the
sections of the calls, the messages appended are those of the calls made, except
for the calls under way. -/
theorem appended_run {s t : EventSender C M S} {is : List (SenderInput C M S)}
    (hs : s.Addressed) (h : (machine C M S).run s is = some t) :
    t.Addressed ∧ t.appended + t.sending =
      s.appended + s.sending + (is.map SenderInput.sends).sum := by
  induction is generalizing s with
  | nil =>
    obtain rfl : s = t := Option.some.inj h
    exact ⟨hs, (add_zero _).symm⟩
  | cons i is ih =>
    obtain ⟨u, hu, hrest⟩ := Machine.run_cons_eq_some.mp h
    obtain ⟨haddressed, hbalance⟩ := appended_step hs hu
    obtain ⟨ht, hsum⟩ := ih haddressed hrest
    exact ⟨ht, by rw [hsum, hbalance, List.map_cons, List.sum_cons, add_assoc]⟩

end Steps

end EventSender

end UsbipIce
