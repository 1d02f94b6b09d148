import UsbipIce.EventSender.Session
import Mathlib.Algebra.Order.Group.Multiset
import Mathlib.Data.List.Sort

/-!
# The order of what a session emits

A client acts on the order of its events, and `send` appends them in order; but
`flush` emits outside the lock. Two calls of `flush` can hold one batch each, and
whichever is scheduled first emits first; a message whose emit raised goes back
behind the newer ones. To say in what order messages come out, even where two of
them are equal, the machine `UsbipIce.Session.numbered` gives each the number of
its call of `send`; forgetting the numbers gives the session back
(`UsbipIce.Session.run_forget`).

The numbers come out in order as long as every successful emit takes the oldest
of the messages still in the session (`UsbipIce.Session.EmitsOldest`): those it
has not emitted are then all newer than those it has
(`UsbipIce.Session.ahead_step`). And where in the end every message has come out,
this is also the only way for them to do so in order
(`UsbipIce.Session.emitsOldest_of_inOrder`).
-/

namespace UsbipIce

open Lib

/-- The message an input adds to the queue. -/
def SessionInput.sends {M S : Type*} : SessionInput M S → List M
  | .send data => [data]
  | _ => []

/-- Give the message of a `send` a number. -/
def SessionInput.number {M S : Type*} (n : ℕ) : SessionInput M S → SessionInput (ℕ × M) S
  | .send data => .send (n, data)
  | .setSocket sockId => .setSocket sockId
  | .removeSocket => .removeSocket
  | .flush => .flush
  | .step k ok => .step k ok

/-- A call of `flush` with its messages renamed. -/
def Flush.map {M N S : Type*} (f : M → N) : Flush M S → Flush N S
  | .begin => .begin
  | .emitting messages sockId => .emitting (messages.map f) sockId
  | .putBack message => .putBack (f message)

namespace Session

variable {M S : Type*}

/-! ### What a step emits, and what is still in the session -/

/-- What a step emits successfully. -/
def emits (s : Session M S) : SessionInput M S → Option (M × S)
  | .step k true =>
    match s.flushes[k]? with
    | some (.emitting (message :: _) sockId) => some (message, sockId)
    | _ => none
  | _ => none

/-- The messages a session has taken in and not let go of: queued, or in the
hands of a call of `flush`. -/
def outstanding (s : Session M S) : Multiset M :=
  (s.messageQueue : Multiset M) + (s.flushes.map held).sum

theorem accounted_eq (s : Session M S) :
    s.accounted = (s.emitted.map Prod.fst : Multiset M) + s.outstanding := by
  rw [accounted, outstanding, add_assoc]

/-- A step of `flush` sends nothing, and emits what `emits` says. -/
theorem records_stepFlush {s : Session M S} {k : ℕ} {f : Flush M S} (h : s.flushes[k]? = some f)
    (ok : Bool) :
    (s.stepFlush k ok f).sent = s.sent ∧
      (s.stepFlush k ok f).emitted = s.emitted ++ (s.emits (.step k ok)).toList := by
  cases f with
  | begin =>
    have hnone : s.emits (.step k ok) = none := by cases ok <;> simp [emits, h]
    rw [hnone, Option.toList_none, List.append_nil, stepFlush]
    split <;> exact ⟨rfl, rfl⟩
  | emitting messages sockId =>
    cases messages with
    | nil =>
      have hnone : s.emits (.step k ok) = none := by cases ok <;> simp [emits, h]
      rw [hnone, Option.toList_none, List.append_nil]
      exact ⟨rfl, rfl⟩
    | cons message messages =>
      cases ok with
      | false => exact ⟨rfl, (List.append_nil _).symm⟩
      | true =>
        have hsome : s.emits (.step k true) = some (message, sockId) := by simp [emits, h]
        rw [hsome]
        exact ⟨rfl, rfl⟩
  | putBack message =>
    have hnone : s.emits (.step k ok) = none := by cases ok <;> simp [emits, h]
    rw [hnone, Option.toList_none, List.append_nil]
    exact ⟨rfl, rfl⟩

/-- What a step adds to the record of what came in and what went out. -/
theorem records_step {s t : Session M S} {i : SessionInput M S} (h : s.step i = some t) :
    t.sent = s.sent ++ i.sends ∧ t.emitted = s.emitted ++ (s.emits i).toList := by
  cases i with
  | send data =>
    obtain rfl := Option.some.inj h
    exact ⟨rfl, (List.append_nil _).symm⟩
  | setSocket sockId =>
    obtain rfl := Option.some.inj h
    exact ⟨(List.append_nil _).symm, (List.append_nil _).symm⟩
  | removeSocket =>
    obtain rfl := Option.some.inj h
    exact ⟨(List.append_nil _).symm, (List.append_nil _).symm⟩
  | flush =>
    obtain rfl := Option.some.inj h
    exact ⟨(List.append_nil _).symm, (List.append_nil _).symm⟩
  | step k ok =>
    obtain ⟨f, hf, rfl⟩ := Option.map_eq_some_iff.mp h
    obtain ⟨hsent, hemitted⟩ := records_stepFlush hf ok
    exact ⟨hsent.trans (List.append_nil _).symm, hemitted⟩

/-- **What a step does to what is outstanding**: its message comes in, and what
it emits and what it drops go out. -/
theorem outstanding_step {s t : Session M S} {i : SessionInput M S} (h : s.step i = some t) :
    s.outstanding + (i.sends : Multiset M) =
      ((s.emits i).toList.map Prod.fst : Multiset M) + t.outstanding
        + (s.dropped i : Multiset M) := by
  have hbalance := sent_step h
  obtain ⟨hsent, hemitted⟩ := records_step h
  rw [accounted_eq, accounted_eq, hsent, hemitted, List.map_append, ← Multiset.coe_add,
    ← Multiset.coe_add] at hbalance
  refine add_left_cancel (a := (s.sent : Multiset M) + (s.emitted.map Prod.fst : Multiset M)) ?_
  calc (s.sent : Multiset M) + (s.emitted.map Prod.fst : Multiset M)
        + (s.outstanding + (i.sends : Multiset M))
      = (s.sent : Multiset M) + i.sends + ((s.emitted.map Prod.fst : Multiset M)
          + s.outstanding) := by abel
    _ = _ := by rw [hbalance]; abel

/-- What is emitted was still in the session. -/
theorem mem_outstanding_of_emits {s t : Session M S} {i : SessionInput M S} {e : M × S}
    (h : s.step i = some t) (he : s.emits i = some e) : e.1 ∈ s.outstanding := by
  have hout := outstanding_step h
  have hsends : i.sends = [] := by
    cases i with
    | step k ok => rfl
    | send | setSocket | removeSocket | flush => cases he
  rw [hsends, Multiset.coe_nil, add_zero, he] at hout
  rw [hout]
  simp

/-! ### Numbering the messages -/

/-- A session with its messages renamed. -/
def map {N : Type*} (f : M → N) (s : Session M S) : Session N S where
  sockId := s.sockId
  messageQueue := s.messageQueue.map f
  flushes := s.flushes.map (Flush.map f)
  sent := s.sent.map f
  emitted := s.emitted.map fun e => (f e.1, e.2)

/-- **The session with numbered messages**: the `n`-th call of `send` appends its
message with the number `n`. -/
def numbered (M S : Type*) : Machine (Session (ℕ × M) S) (SessionInput M S) :=
  ⟨fun s i => s.step (i.number s.sent.length)⟩

/-- The session forgets the numbers. -/
def forget (s : Session (ℕ × M) S) : Session M S := s.map Prod.snd

@[simp] theorem stepFlush_map {N : Type*} (f : M → N) (s : Session M S) (k : ℕ) (ok : Bool)
    (g : Flush M S) : (s.map f).stepFlush k ok (g.map f) = (s.stepFlush k ok g).map f := by
  obtain ⟨sockId, messageQueue, flushes, sent, emitted⟩ := s
  cases g with
  | begin =>
    cases messageQueue with
    | nil => simp [map, Flush.map, stepFlush, List.eraseIdx_map]
    | cons message messages =>
      cases sockId with
      | none => simp [map, Flush.map, stepFlush, List.eraseIdx_map]
      | some sockId => simp [map, Flush.map, stepFlush, List.map_set]
  | emitting messages sockId =>
    cases messages with
    | nil => simp [map, Flush.map, stepFlush, List.eraseIdx_map]
    | cons message messages => cases ok <;> simp [map, Flush.map, stepFlush, List.map_set]
  | putBack message => simp [map, Flush.map, stepFlush, List.eraseIdx_map]

/-- **The session never looks at a number**: it takes the same steps without. -/
@[simp] theorem step_forget (s : Session (ℕ × M) S) (i : SessionInput M S) :
    (machine M S).step s.forget i = ((numbered M S).step s i).map forget := by
  cases i with
  | send data => simp [machine, numbered, SessionInput.number, step, forget, map, Flush.map]
  | setSocket sockId => simp [machine, numbered, SessionInput.number, step, forget, map, Flush.map]
  | removeSocket => simp [machine, numbered, SessionInput.number, step, forget, map]
  | flush => simp [machine, numbered, SessionInput.number, step, forget, map, Flush.map]
  | step k ok =>
    have hget : s.forget.flushes[k]? = (s.flushes[k]?).map (Flush.map Prod.snd) :=
      List.getElem?_map
    have hstep : (numbered M S).step s (.step k ok) = (s.flushes[k]?).map (s.stepFlush k ok) := rfl
    rw [hstep, Option.map_map]
    simp only [machine, step, hget, Option.map_map]
    exact congrArg (fun g => (s.flushes[k]?).map g)
      (funext fun g => stepFlush_map Prod.snd s k ok g)

/-- **The numbered session is the session**, run for run. -/
@[simp] theorem run_forget (s : Session (ℕ × M) S) (is : List (SessionInput M S)) :
    (machine M S).run s.forget is = ((numbered M S).run s is).map forget := by
  induction is generalizing s with
  | nil => rfl
  | cons i is ih =>
    rw [Machine.run_cons, Machine.run_cons, step_forget]
    cases (numbered M S).step s i with
    | none => rfl
    | some t => exact ih t

/-! ### Messages in order -/

/-- The numbers of the messages emitted successfully, in the order of the
emits. -/
def numbers (s : Session (ℕ × M) S) : List ℕ := s.emitted.map fun e => e.1.1

/-- **What was emitted was emitted in the order in which `send` appended
it.** -/
def InOrder (s : Session (ℕ × M) S) : Prop := s.numbers.Pairwise (· < ·)

/-- The step does not emit a message while an older one is still in the session,
be it queued, in the batch of another `flush`, on its way back to the queue, or
behind it in its own batch. -/
def EmitsOldest (s : Session (ℕ × M) S) (i : SessionInput M S) : Prop :=
  ∀ e ∈ s.emits (i.number s.sent.length), ∀ m ∈ s.outstanding, e.1.1 ≤ m.1

instance (s : Session (ℕ × M) S) (i : SessionInput M S) : Decidable (s.EmitsOldest i) := by
  unfold EmitsOldest
  infer_instance

/-- What every run of the numbered session keeps. -/
structure Numbered (s : Session (ℕ × M) S) : Prop where
  /-- Messages are numbered from zero on. -/
  sent_fst : s.sent.map Prod.fst = List.range s.sent.length
  /-- What is emitted or still there was sent. -/
  accounted_le : s.accounted ≤ (s.sent : Multiset (ℕ × M))

theorem numbered_start : (start : Session (ℕ × M) S).Numbered := ⟨rfl, le_refl _⟩

theorem numbered_step {s t : Session (ℕ × M) S} {i : SessionInput M S} (hs : s.Numbered)
    (h : (numbered M S).step s i = some t) : t.Numbered := by
  have hbalance := sent_step h
  have hsent := (records_step h).1
  constructor
  · rw [hsent]
    cases i with
    | send data =>
      simp only [SessionInput.number, SessionInput.sends, List.map_append, List.map_cons,
        List.map_nil, List.length_append, List.length_cons, List.length_nil, zero_add,
        hs.sent_fst, List.range_succ]
    | setSocket | removeSocket | flush | step =>
      simpa only [SessionInput.number, SessionInput.sends, List.append_nil] using hs.sent_fst
  · obtain ⟨r, hr⟩ := Multiset.le_iff_exists_add.mp hs.accounted_le
    refine Multiset.le_iff_exists_add.mpr
      ⟨r + (s.dropped (i.number s.sent.length) : Multiset (ℕ × M)), ?_⟩
    refine add_right_cancel (b := s.accounted) ?_
    rw [hbalance, hr]
    abel

/-- Every number is given once. -/
theorem Numbered.nodup {s : Session (ℕ × M) S} (hs : s.Numbered) :
    (s.accounted.map Prod.fst).Nodup := by
  have hnodup : ((s.sent : Multiset (ℕ × M)).map Prod.fst).Nodup := by
    rw [Multiset.map_coe, hs.sent_fst, Multiset.coe_nodup]
    exact List.nodup_range
  exact Multiset.nodup_of_le (Multiset.map_le_map hs.accounted_le) hnodup

theorem Numbered.fst_lt {s : Session (ℕ × M) S} (hs : s.Numbered) {m : ℕ × M}
    (hm : m ∈ s.accounted) : m.1 < s.sent.length := by
  have hmem : m ∈ s.sent := Multiset.mem_coe.mp (Multiset.mem_of_le hs.accounted_le hm)
  have hfst : m.1 ∈ s.sent.map Prod.fst := List.mem_map_of_mem hmem
  rwa [hs.sent_fst, List.mem_range] at hfst

theorem mem_accounted_of_outstanding {s : Session M S} {m : M} (hm : m ∈ s.outstanding) :
    m ∈ s.accounted := by
  rw [accounted_eq]
  exact Multiset.mem_add.mpr (.inr hm)

theorem Numbered.lt_of_mem_numbers {s : Session (ℕ × M) S} (hs : s.Numbered) {n : ℕ}
    (hn : n ∈ s.numbers) : n < s.sent.length := by
  obtain ⟨e, he, rfl⟩ := List.mem_map.mp hn
  refine hs.fst_lt ?_
  rw [accounted_eq]
  exact Multiset.mem_add.mpr (.inl (Multiset.mem_coe.mpr (List.mem_map_of_mem he)))

/-- A message that is still there has not been emitted. -/
theorem Numbered.ne_of_mem {s : Session (ℕ × M) S} (hs : s.Numbered) {n : ℕ} {m : ℕ × M}
    (hn : n ∈ s.numbers) (hm : m ∈ s.outstanding) : n ≠ m.1 := by
  have hnodup := hs.nodup
  rw [accounted_eq, Multiset.map_add, Multiset.nodup_add] at hnodup
  rintro rfl
  refine Multiset.disjoint_left.mp hnodup.2.2 ?_ (Multiset.mem_map_of_mem _ hm)
  simpa [numbers] using hn

/-! ### Emitting the oldest keeps the order -/

/-- **The invariant**: the messages emitted are in order, and those still in the
session are all newer. -/
structure Ahead (s : Session (ℕ × M) S) : Prop where
  inOrder : s.InOrder
  newer : ∀ n ∈ s.numbers, ∀ m ∈ s.outstanding, n < m.1

theorem numbers_step {s t : Session (ℕ × M) S} {i : SessionInput M S}
    (h : (numbered M S).step s i = some t) :
    t.numbers = s.numbers ++
      (s.emits (i.number s.sent.length)).toList.map fun e => e.1.1 := by
  rw [numbers, (records_step h).2, List.map_append, numbers]

/-- **The step lemma**: a step that emits the oldest leaves the rest newer. -/
theorem ahead_step {s t : Session (ℕ × M) S} {i : SessionInput M S} (hs : s.Numbered)
    (ha : s.Ahead) (hi : s.EmitsOldest i) (h : (numbered M S).step s i = some t) : t.Ahead := by
  have hout := outstanding_step h
  have hnumbers := numbers_step h
  -- what is outstanding afterwards was so before, or has just been sent
  have hkeep : ∀ m ∈ t.outstanding, m ∈ s.outstanding ∨ m.1 = s.sent.length := by
    intro m hm
    have hmem : m ∈ s.outstanding + ((i.number s.sent.length).sends : Multiset (ℕ × M)) := by
      rw [hout]
      simp [hm]
    refine (Multiset.mem_add.mp hmem).imp_right fun hnew => ?_
    cases i with
    | send data =>
      obtain rfl : m = (s.sent.length, data) := by simpa [SessionInput.number,
        SessionInput.sends] using hnew
      rfl
    | setSocket | removeSocket | flush | step => cases hnew
  have hnewer : ∀ n ∈ s.numbers, ∀ m ∈ t.outstanding, n < m.1 := by
    intro n hn m hm
    obtain hold | hnew := hkeep m hm
    · exact ha.newer n hn m hold
    · rw [hnew]
      exact hs.lt_of_mem_numbers hn
  cases he : s.emits (i.number s.sent.length) with
  | none =>
    rw [he, Option.toList_none, List.map_nil, List.append_nil] at hnumbers
    exact ⟨by rw [InOrder, hnumbers]; exact ha.inOrder, by rw [hnumbers]; exact hnewer⟩
  | some e =>
    rw [he, Option.toList_some, List.map_cons, List.map_nil] at hnumbers
    have hmem : e.1 ∈ s.outstanding := mem_outstanding_of_emits h he
    constructor
    · rw [InOrder, hnumbers, List.pairwise_append]
      refine ⟨ha.inOrder, List.pairwise_singleton _ _, fun n hn n' hn' => ?_⟩
      rw [List.mem_singleton.mp hn']
      exact ha.newer n hn _ hmem
    · intro n hn m hm
      obtain hn' | hn' := List.mem_append.mp (hnumbers ▸ hn)
      · exact hnewer n hn' m hm
      · -- the message just emitted was the oldest, and no other has its number
        have hne : n ≠ m.1 := (numbered_step hs h).ne_of_mem hn hm
        rw [List.mem_singleton.mp hn'] at hne ⊢
        have hle : e.1.1 ≤ m.1 := by
          obtain hold | hnew := hkeep m hm
          · exact hi e he m hold
          · rw [hnew]
            exact (hs.fst_lt (mem_accounted_of_outstanding hmem)).le
        omega

/-! ### The order of a run -/

/-- What a run adds to the record of what came in and what went out. -/
theorem records_run {s t : Session (ℕ × M) S} {is : List (SessionInput M S)}
    (h : (numbered M S).run s is = some t) : s.sent <+: t.sent ∧ s.numbers <+: t.numbers := by
  refine Machine.invariant (I := fun u => s.sent <+: u.sent ∧ s.numbers <+: u.numbers) ?_
    ⟨List.prefix_rfl, List.prefix_rfl⟩ h
  rintro u i v ⟨hsent, hnumbers⟩ hstep
  constructor
  · rw [(records_step hstep).1]
    exact hsent.trans (List.prefix_append _ _)
  · rw [numbers_step hstep]
    exact hnumbers.trans (List.prefix_append _ _)

/-- **Only so**: where every message comes out and in order, each was the oldest
when it did. -/
theorem emitsOldest_of_inOrder {s t : Session (ℕ × M) S} {is : List (SessionInput M S)}
    (hs : s.Numbered) (h : (numbered M S).run s is = some t)
    (hall : ∀ m ∈ t.sent, m.1 ∈ t.numbers) (ht : t.InOrder) :
    (numbered M S).Meets EmitsOldest s is := by
  induction is generalizing s with
  | nil => trivial
  | cons i is ih =>
    obtain ⟨u, hu, hrest⟩ := Machine.run_cons_eq_some.mp h
    refine ⟨?_, fun v hv => ?_⟩
    · intro e he m hm
      by_contra hlt
      obtain ⟨rest, hnumbers⟩ := (records_run hrest).2
      have he' : s.emits (i.number s.sent.length) = some e := he
      rw [numbers_step hu, he', Option.toList_some, List.map_cons, List.map_nil] at hnumbers
      -- the older message is emitted in the end, so it is emitted later
      have hsent : m ∈ s.sent :=
        Multiset.mem_coe.mp (Multiset.mem_of_le hs.accounted_le (mem_accounted_of_outstanding hm))
      have hmem : m.1 ∈ t.numbers := hall m ((records_run h).1.subset hsent)
      have hnot : m.1 ∉ s.numbers := fun hn => hs.ne_of_mem hn hm rfl
      rw [← hnumbers] at hmem
      have hlater : m.1 ∈ rest := by
        obtain hmem | hmem := List.mem_append.mp hmem
        · obtain hmem | hmem := List.mem_append.mp hmem
          · exact absurd hmem hnot
          · have heq : m.1 = e.1.1 := List.mem_singleton.mp hmem
            omega
        · exact hmem
      rw [InOrder, ← hnumbers, List.pairwise_append] at ht
      have hgt := ht.2.2 e.1.1 (List.mem_append_right _ (List.mem_singleton_self _)) m.1 hlater
      omega
    · obtain rfl : u = v := Option.some.inj (hu.symm.trans hv)
      exact ih (numbered_step hs hu) hrest

/-- **In which runs messages come out in order.** Every run of the session is
one of the session with numbered messages. If each of its successful emits takes
the oldest message still in the session, then, whatever calls overlap and
whatever emits fail, the messages are emitted in the order in which `send`
appended them. And a run that has emitted every message passed to `send` has
emitted them in this order only if each of its successful emits took the
oldest. -/
theorem emitted_in_order {t : Session (ℕ × M) S} {is : List (SessionInput M S)}
    (h : (numbered M S).run start is = some t) :
    (machine M S).run start is = some t.forget ∧
      ((numbered M S).Meets EmitsOldest start is → t.InOrder) ∧
      ((∀ m ∈ t.sent, m.1 ∈ t.numbers) → t.InOrder →
        (numbered M S).Meets EmitsOldest start is) := by
  refine ⟨?_, ?_, ?_⟩
  · have hforget := run_forget (start : Session (ℕ × M) S) is
    rwa [h] at hforget
  · intro hmeets
    have hstart : (start : Session (ℕ × M) S).Ahead := by
      constructor
      · exact List.Pairwise.nil
      · intro n hn
        cases hn
    exact (Machine.invariant_of_meets (I := fun s : Session (ℕ × M) S => s.Numbered ∧ s.Ahead)
      (fun s i u hs hi hu => ⟨numbered_step hs.1 hu, ahead_step hs.1 hs.2 hi hu⟩)
      ⟨numbered_start, hstart⟩ hmeets h).2.inOrder
  · exact emitsOldest_of_inOrder numbered_start h

/-- What the client of a session sees of it: the messages emitted are a
subsequence of those sent. -/
theorem emitted_sublist_sent {t : Session (ℕ × M) S} (ht : t.Numbered) (hord : t.InOrder) :
    (t.forget.emitted.map Prod.fst).Sublist t.forget.sent := by
  have hsorted : (t.sent.map Prod.fst).Pairwise (· < ·) := by
    rw [ht.sent_fst]
    exact List.pairwise_lt_range
  have hperm : (t.emitted.map Prod.fst).Subperm t.sent := by
    rw [← Multiset.coe_le]
    refine le_trans ?_ ht.accounted_le
    rw [accounted_eq]
    exact Multiset.le_add_right _ _
  have hemitted : (t.emitted.map Prod.fst).Pairwise fun m n => m.1 < n.1 := by
    rw [List.pairwise_map]
    exact List.pairwise_map.mp hord
  have hsub : (t.emitted.map Prod.fst).Sublist t.sent := by
    have hanti : Std.Antisymm fun m n : ℕ × M => m.1 < n.1 :=
      ⟨fun _ _ hmn hnm => absurd hmn hnm.not_gt⟩
    exact List.sublist_of_subperm_of_pairwise hperm hemitted (List.pairwise_map.mp hsorted)
  have hforget := hsub.map Prod.snd
  rw [List.map_map] at hforget
  simpa [forget, map, Function.comp_def] using hforget

/-- A socket is there, and two calls of `flush` take one message each. The second
is the first to emit. -/
def secondFlushEmitsFirst : List (SessionInput String ℕ) :=
  [.setSocket 1, .step 0 true, .send "export", .step 0 true, .send "disconnect", .step 1 true,
    .step 1 true, .step 0 true]

/-- An emit raises, and its message goes back on the queue behind the one sent
meanwhile. -/
def putBackBehind : List (SessionInput String ℕ) :=
  [.setSocket 1, .step 0 true, .send "export", .step 0 true, .step 0 false, .send "disconnect",
    .step 0 true, .step 0 true, .step 0 true, .step 0 true]

/-- **Messages overtake each other**, in two calls of `flush` and by being put
back. -/
theorem disconnect_before_export :
    (∃ t, (machine String ℕ).run start secondFlushEmitsFirst = some t ∧
      t.sent = ["export", "disconnect"] ∧ t.emitted = [("disconnect", 1), ("export", 1)]) ∧
    (∃ t, (machine String ℕ).run start putBackBehind = some t ∧
      t.sent = ["export", "disconnect"] ∧ t.emitted = [("disconnect", 1), ("export", 1)]) ∧
    ¬∀ (is : List (SessionInput String ℕ)) t, (numbered String ℕ).run start is = some t →
      t.InOrder := by
  refine ⟨⟨_, rfl, rfl, rfl⟩, ⟨_, rfl, rfl, rfl⟩, fun hall => ?_⟩
  have hord := hall secondFlushEmitsFirst _ rfl
  revert hord
  unfold InOrder
  decide

/-- One call of `flush` emits two messages, the oldest first. -/
def oneFlush : List (SessionInput String ℕ) :=
  [.send "export", .step 0 true, .send "disconnect", .step 0 true, .setSocket 1, .step 0 true,
    .step 0 true, .step 0 true]

/-- Messages taken in one batch come out in order. -/
theorem oneFlush_in_order :
    ∃ t, (numbered String ℕ).run start oneFlush = some t ∧ t.InOrder ∧ t.numbers = [0, 1] := by
  have hrun : ∃ t, (numbered String ℕ).run start oneFlush = some t ∧ t.numbers = [0, 1] :=
    ⟨_, rfl, rfl⟩
  obtain ⟨t, ht, hnumbers⟩ := hrun
  have hmeets : (numbered String ℕ).Meets EmitsOldest start oneFlush := by decide
  exact ⟨t, ht, (emitted_in_order ht).2.1 hmeets, hnumbers⟩

end Session

end UsbipIce
