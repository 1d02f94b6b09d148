import UsbipIce.Lib.Machine
import UsbipIce.Lib.Pool

/-!
# A session and its message queue

`Session` of `utils/EventSender.py`: messages for one client wait in
`message_queue` until a socket is there, and `flush` sends them. The queue is
taken whole under the lock, but emitted outside it, so several calls of `flush`
can be under way at once; the state keeps them in
`UsbipIce.Session.flushes`, and one step of the machine is one lock-held
section or one `socketio.emit`.

Messages are conserved except by one line. When an emit raises, the message at
hand goes back on the queue and `flush` returns, dropping the rest of its batch
(`UsbipIce.Session.dropped`). What a run has been given, it has emitted, holds,
or has dropped there (`UsbipIce.Session.conservation`), so nothing is lost
exactly when no emit ever failed with messages behind it
(`UsbipIce.Session.sent_perm_iff`).
-/

namespace UsbipIce

open Lib

/-! ### The state -/

/-- A call of `Session.flush` under way. -/
inductive Flush (M S : Type*) where
  /-- About to take the queue, under the lock. -/
  | begin : Flush M S
  /-- Emitting the rest of its batch to the socket it read. -/
  | emitting (messages : List M) (sockId : S) : Flush M S
  /-- An emit raised: about to put its message back, under the lock. -/
  | putBack (message : M) : Flush M S

/-- A `Session`, with the calls of `flush` under way and a record of what went
in and out. -/
structure Session (M S : Type*) where
  /-- `sock_id`. -/
  sockId : Option S
  /-- `message_queue`. -/
  messageQueue : List M
  /-- The calls of `flush` under way. -/
  flushes : List (Flush M S)
  /-- Every message passed to `send` so far. -/
  sent : List M
  /-- Every successful emit so far, with the socket it went to. -/
  emitted : List (M × S)

/-- What a caller, the scheduler or the socket does next. -/
inductive SessionInput (M S : Type*) where
  /-- A call of `send` appends its message and goes on to `flush`. -/
  | send (data : M)
  /-- A call of `setSocket` sets the socket and goes on to `flush`. -/
  | setSocket (sockId : S)
  /-- A call of `removeSocket`. -/
  | removeSocket
  /-- A call of `flush`. -/
  | flush
  /-- Call `k` of `flush` takes its next step; if that is an emit, `ok` says
  whether it succeeds. -/
  | step (k : ℕ) (ok : Bool)

namespace Session

variable {M S : Type*}

/-- A session as the constructor leaves it. -/
def start : Session M S := ⟨none, [], [], [], []⟩

/-- The next step of call `k` of `flush`. -/
def stepFlush (s : Session M S) (k : ℕ) (ok : Bool) : Flush M S → Session M S
  | .begin =>
    match s.messageQueue, s.sockId with
    | [], _ => { s with flushes := s.flushes.eraseIdx k }
    | _ :: _, none => { s with flushes := s.flushes.eraseIdx k }
    | messages, some sockId =>
      { s with messageQueue := [], flushes := s.flushes.set k (.emitting messages sockId) }
  | .emitting [] _ => { s with flushes := s.flushes.eraseIdx k }
  | .emitting (message :: messages) sockId =>
    if ok then
      { s with
        flushes := s.flushes.set k (.emitting messages sockId)
        emitted := s.emitted ++ [(message, sockId)] }
    else
      -- `return` inside the loop: the rest of the batch is not put back
      { s with flushes := s.flushes.set k (.putBack message) }
  | .putBack message =>
    { s with messageQueue := s.messageQueue ++ [message], flushes := s.flushes.eraseIdx k }

/-- One lock-held section or one emit. -/
def step (s : Session M S) : SessionInput M S → Option (Session M S)
  | .send data => some
    { s with
      messageQueue := s.messageQueue ++ [data]
      flushes := s.flushes ++ [.begin]
      sent := s.sent ++ [data] }
  | .setSocket sockId => some
    { s with sockId := some sockId, flushes := s.flushes ++ [.begin] }
  | .removeSocket => some { s with sockId := none }
  | .flush => some { s with flushes := s.flushes ++ [.begin] }
  | .step k ok => (s.flushes[k]?).map (s.stepFlush k ok)

/-- The session as a machine. -/
def machine (M S : Type*) : Machine (Session M S) (SessionInput M S) := ⟨step⟩

/-! ### Conservation -/

/-- The messages a call of `flush` has in hand. -/
def held : Flush M S → Multiset M
  | .begin => 0
  | .emitting messages _ => messages
  | .putBack message => {message}

/-- Where the messages of a session are: emitted, queued, or in the hands of a
call of `flush`. -/
def accounted (s : Session M S) : Multiset M :=
  (s.emitted.map Prod.fst : Multiset M) + s.messageQueue + (s.flushes.map held).sum

/-- **What a step drops**: the messages behind one whose emit raises. -/
def dropped (s : Session M S) : SessionInput M S → List M
  | .step k false =>
    match s.flushes[k]? with
    | some (.emitting (_ :: messages) _) => messages
    | _ => []
  | _ => []

@[simp] theorem coe_snoc (l : List M) (a : M) : ((l ++ [a] : List M) : Multiset M) = l + {a} := by
  rw [← Multiset.coe_add, Multiset.coe_singleton]

theorem coe_cons (l : List M) (a : M) : ((a :: l : List M) : Multiset M) = {a} + l := by
  rw [← Multiset.cons_coe, Multiset.singleton_add]

/-- A step of `flush` moves messages about, except for those it drops. -/
theorem accounted_stepFlush {s : Session M S} {k : ℕ} {f : Flush M S}
    (h : s.flushes[k]? = some f) (ok : Bool) :
    s.accounted = (s.stepFlush k ok f).accounted + (s.dropped (.step k ok) : Multiset M) := by
  have herase := sum_map_eraseIdx held h
  have hset := fun y => sum_map_set held h y
  cases f with
  | begin =>
    have hdrop : s.dropped (.step k ok) = [] := by cases ok <;> simp [dropped, h]
    match hq : s.messageQueue, hs : s.sockId with
    | [], _ =>
      simp only [accounted, stepFlush, hq, hdrop, herase, held, Multiset.coe_nil, zero_add,
        add_zero]
    | m :: messages, none =>
      simp only [accounted, stepFlush, hq, hs, hdrop, herase, held, Multiset.coe_nil, zero_add,
        add_zero]
    | m :: messages, some sockId =>
      simp only [accounted, stepFlush, hq, hs, hdrop, herase, hset, held, Multiset.coe_nil,
        zero_add, add_zero]
      abel
  | emitting messages sockId =>
    cases messages with
    | nil =>
      have hdrop : s.dropped (.step k ok) = [] := by cases ok <;> simp [dropped, h]
      simp only [accounted, stepFlush, hdrop, herase, held, Multiset.coe_nil, zero_add, add_zero]
    | cons message messages =>
      cases ok with
      | true =>
        have hdrop : s.dropped (.step k true) = [] := rfl
        simp only [accounted, stepFlush, hdrop, herase, hset, held, if_true, List.map_append,
          List.map_cons, List.map_nil, coe_snoc, coe_cons, Multiset.coe_nil, add_zero]
        abel
      | false =>
        have hdrop : s.dropped (.step k false) = messages := by simp [dropped, h]
        simp only [accounted, stepFlush, hdrop, herase, hset, held, Bool.false_eq_true, if_false,
          coe_cons]
        abel
  | putBack message =>
    have hdrop : s.dropped (.step k ok) = [] := by cases ok <;> simp [dropped, h]
    simp only [accounted, stepFlush, hdrop, herase, held, coe_snoc, Multiset.coe_nil, add_zero]
    abel

/-- **One step conserves messages**: what comes in is accounted for or
dropped. -/
theorem sent_step {s t : Session M S} {i : SessionInput M S} (h : s.step i = some t) :
    (t.sent : Multiset M) + s.accounted =
      (s.sent : Multiset M) + t.accounted + (s.dropped i : Multiset M) := by
  cases i with
  | send data =>
    obtain rfl := Option.some.inj h
    simp only [accounted, dropped, held, coe_snoc, List.map_append, List.map_cons, List.map_nil,
      List.sum_append, List.sum_cons, List.sum_nil, Multiset.coe_nil, add_zero]
    abel
  | setSocket sockId =>
    obtain rfl := Option.some.inj h
    simp only [accounted, dropped, held, List.map_append, List.map_cons, List.map_nil,
      List.sum_append, List.sum_cons, List.sum_nil, Multiset.coe_nil, add_zero]
  | removeSocket =>
    obtain rfl := Option.some.inj h
    simp only [accounted, dropped, Multiset.coe_nil, add_zero]
  | flush =>
    obtain rfl := Option.some.inj h
    simp only [accounted, dropped, held, List.map_append, List.map_cons, List.map_nil,
      List.sum_append, List.sum_cons, List.sum_nil, Multiset.coe_nil, add_zero]
  | step k ok =>
    obtain ⟨f, hf, rfl⟩ := Option.map_eq_some_iff.mp h
    have hsent : (s.stepFlush k ok f).sent = s.sent := by
      rw [stepFlush.eq_def]
      split
      · split <;> rfl
      · rfl
      · split <;> rfl
      · rfl
    rw [hsent, accounted_stepFlush hf ok]
    abel

/-- **Conservation**: after any run, every message passed to `send` has been
emitted, is queued, is in the hands of a `flush`, or was dropped. -/
theorem conservation {t : Session M S} {is : List (SessionInput M S)}
    (h : (machine M S).run start is = some t) :
    (t.sent : Multiset M) =
      t.accounted + (machine M S).total (fun s i => (s.dropped i : Multiset M)) start is := by
  have hb := Machine.balance (fun s : Session M S => (s.sent : Multiset M)) accounted
    (fun s i => (s.dropped i : Multiset M)) (fun _ _ _ hstep => sent_step hstep) h
  have hstart : (start : Session M S).accounted = 0 := rfl
  have hsent : ((start : Session M S).sent : Multiset M) = 0 := rfl
  simpa only [hstart, hsent, add_zero, zero_add] using hb

/-! ### The exact condition -/

/-- The step is not an emit that fails with messages of its batch behind it. -/
def FailsLast (s : Session M S) (i : SessionInput M S) : Prop :=
  ∀ k message messages sockId, i = .step k false →
    s.flushes[k]? = some (.emitting (message :: messages) sockId) → messages = []

@[simp] theorem dropped_eq_nil_iff {s : Session M S} {i : SessionInput M S} :
    s.dropped i = [] ↔ s.FailsLast i := by
  constructor
  · rintro h k message messages sockId rfl hk
    simpa [dropped, hk] using h
  · intro h
    rw [dropped.eq_def]
    split
    · split
      · exact h _ _ _ _ rfl ‹_›
      · rfl
    · rfl

/-- **No message is lost or delivered twice exactly when no emit fails with
messages behind it.** For every run that ends with no `flush` under way, the
messages passed to `send` are, each as often as it was passed, those emitted
successfully and those in `message_queue`, if and only if every step of the run
that failed an emit did so at the last message of its batch. -/
theorem sent_perm_iff {t : Session M S} {is : List (SessionInput M S)}
    (h : (machine M S).run start is = some t) (hquiet : t.flushes = []) :
    t.sent.Perm (t.emitted.map Prod.fst ++ t.messageQueue) ↔
      (machine M S).Meets FailsLast start is := by
  have hacc : t.accounted = ((t.emitted.map Prod.fst ++ t.messageQueue : List M) : Multiset M) := by
    simp only [accounted, hquiet, List.map_nil, List.sum_nil, add_zero, Multiset.coe_add]
  have hcons := conservation h
  have hzero : (machine M S).total (fun s i => (s.dropped i : Multiset M)) start is = 0 ↔
      (machine M S).Meets FailsLast start is := by
    rw [Machine.total_eq_zero_iff h]
    refine ⟨Machine.Meets.mono fun s i hi => ?_, Machine.Meets.mono fun s i hi => ?_⟩
    · exact dropped_eq_nil_iff.mp (by simpa using hi)
    · rw [dropped_eq_nil_iff.mpr hi, Multiset.coe_nil]
  rw [← hzero, ← Multiset.coe_eq_coe, ← hacc, hcons]
  exact ⟨fun heq => by simpa using heq, fun heq => by rw [heq, add_zero]⟩

/-- Two messages queue up, a socket comes, and the first emit raises: the first
message is put back, the second is nowhere. -/
def firstEmitRaises : List (SessionInput String ℕ) :=
  [.send "a", .step 0 true, .send "b", .step 0 true, .setSocket 1, .step 0 true, .step 0 false,
    .step 0 true]

/-- **A failed emit loses the messages behind it.** -/
theorem firstEmitRaises_loses :
    ∃ t, (machine String ℕ).run start firstEmitRaises = some t ∧ t.flushes = [] ∧
      ¬t.sent.Perm (t.emitted.map Prod.fst ++ t.messageQueue) :=
  ⟨_, rfl, rfl, by decide⟩

/-- Two messages queue up, a socket comes, and the second emit raises. -/
def lastEmitRaises : List (SessionInput String ℕ) :=
  [.send "a", .step 0 true, .send "b", .step 0 true, .setSocket 1, .step 0 true, .step 0 true,
    .step 0 false, .step 0 true]

/-- A batch that fails at its last message loses nothing. -/
theorem lastEmitRaises_keeps :
    ∃ t, (machine String ℕ).run start lastEmitRaises = some t ∧
      t.sent.Perm (t.emitted.map Prod.fst ++ t.messageQueue) ∧
      (machine String ℕ).Meets FailsLast start lastEmitRaises := by
  refine ⟨_, rfl, by decide, ?_⟩
  exact (sent_perm_iff rfl rfl).mp (by decide)

end Session

end UsbipIce
