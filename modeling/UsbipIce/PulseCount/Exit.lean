import UsbipIce.PulseCount.Host

/-!
# Whether the run thread ends

`handleExit` sets `exiting`, wakes the run thread and joins it; only then does it
stop the reader. The run thread looks at `exiting` at the condition of its loop
and where it waits for a bitstream. Its two other waits look at what the device
has said: `waitUntilReady` at `ready`, `waitUntilPulse` at `last_pulse` and at the
flag of the reader, which is set after the join.

So the run thread can end without another word of the device exactly when the
waits before the end of its iteration are satisfied by what the device has said
already (`UsbipIce.PulseCount.Host.ends_iff`).
-/

namespace UsbipIce.PulseCount

open Lib

/-! ### What the reader has -/

namespace Reader

variable {ν : Type*}

/-- The sections the reader is about to go through. -/
def pending (r : Reader ν) : List (Signal ν) :=
  match r.thread with
  | .signalling l => l
  | .reading | .ended => []

/-- `ready` is set, or is about to be. -/
def HeardReady (r : Reader ν) : Prop := r.ready = true ∨ .wait ∈ r.pending

/-- `last_pulse` is set, or is about to be. -/
def HeardPulse (r : Reader ν) : Prop := r.held ≠ []

/-- The thread has not ended before it was told to. -/
def Runs (r : Reader ν) : Prop := r.thread = .ended → r.exiting = true

theorem runs_receive {r r' : Reader ν} {l : List (Signal ν)} (h : r.receive l = some r') :
    r'.Runs := by
  rw [receive] at h
  split at h
  · obtain rfl := Option.some.inj h
    intro hended
    cases hended
  · cases h
  · cases h

theorem runs_step {r r' : Reader ν} (h : r.step = some r') : r'.Runs := by
  rw [step] at h
  split at h
  · obtain rfl := Option.some.inj h
    intro hended
    cases hended
  · obtain rfl := Option.some.inj h
    intro hended
    by_contra hno
    simp only [if_neg hno] at hended
    cases hended
  · obtain rfl := Option.some.inj h
    intro hended
    by_contra hno
    simp only [if_neg hno] at hended
    cases hended
  · cases h

/-- **A step of the reader's thread brings nothing that was not there.** -/
theorem heard_step {r r' : Reader ν} (h : r.step = some r') :
    (r'.HeardReady → r.HeardReady) ∧ (r'.HeardPulse → r.HeardPulse) := by
  rw [step] at h
  split at h
  · rename_i s l hr
    obtain rfl := Option.some.inj h
    have hpending : r.pending = s :: l := by rw [pending, hr]
    have hheld : r.held = r.lastPulse.toList ++ answers (s :: l) := by rw [held, hr]
    constructor
    · rintro (hready | hwait)
      · cases s with
        | pulses n => exact Or.inl hready
        | timeout => exact Or.inl hready
        | wait => exact Or.inr (hpending ▸ List.mem_cons_self)
      · exact Or.inr (hpending ▸ List.mem_cons_of_mem _ hwait)
    · intro hpulse
      rw [HeardPulse, hheld, answers, List.filterMap_cons]
      cases ha : s.answer? with
      | none =>
        simp only [HeardPulse, held, perform_of_answer?_eq_none ha] at hpulse
        exact hpulse
      | some a =>
        intro hnil
        cases (List.append_eq_nil_iff.mp hnil).2
  · rename_i hr
    obtain rfl := Option.some.inj h
    by_cases he : r.exiting = true
    · simp [HeardReady, HeardPulse, pending, held, he, hr]
    · simp [HeardReady, HeardPulse, pending, held, he, hr]
  · rename_i hr
    obtain rfl := Option.some.inj h
    by_cases he : r.exiting = true
    · simp [HeardReady, HeardPulse, pending, held, he, hr, answers]
    · simp [HeardReady, HeardPulse, pending, held, he, hr, answers]
  · cases h

/-- The sections leave what was heard. -/
theorem heard_foldl {l : List (Signal ν)} {r : Reader ν} :
    (r.ready = true ∨ .wait ∈ l → (l.foldl perform r).ready = true) ∧
      (r.lastPulse.toList ++ answers l ≠ [] → (l.foldl perform r).lastPulse.isSome) := by
  induction l generalizing r with
  | nil =>
    constructor
    · rintro (h | h)
      · exact h
      · cases h
    · intro h
      rw [answers, List.filterMap_nil, List.append_nil] at h
      exact Option.isSome_iff_ne_none.mpr fun hnone => h (hnone ▸ rfl)
  | cons s l ih =>
    rw [List.foldl_cons]
    constructor
    · intro h
      refine ih.1 ?_
      rcases h with h | h
      · refine Or.inl ?_
        cases s with
        | pulses n => exact h
        | timeout => exact h
        | wait => rfl
      · rcases List.mem_cons.mp h with rfl | h
        · exact Or.inl rfl
        · exact Or.inr h
    · intro h
      refine ih.2 ?_
      cases ha : s.answer? with
      | none =>
        rw [answers, List.filterMap_cons, ha] at h
        rw [perform_of_answer?_eq_none ha]
        exact h
      | some a =>
        rw [perform_of_answer? ha]
        exact List.cons_ne_nil _ _

end Reader

namespace Host

variable {ν δ : Type*}

/-! ### The condition -/

/-- **What the run thread still has to wait for has been heard.** -/
def Free (s : Host ν) : Prop :=
  match s.run with
  | .loop | .take | .judge .. | .remove _ | .finish | .ended => True
  | .read b => s.files b.location = none ∨ (s.reader.HeardReady ∧ s.reader.HeardPulse)
  | .waitUntilReady .. => s.reader.HeardReady ∧ s.reader.HeardPulse
  | .upload .. | .waitUntilPulse _ => s.reader.HeardPulse

/-- What is known of the reader while the run thread runs. -/
structure Running (s : Host ν) : Prop where
  exiting : s.reader.exiting = true → s.run = .ended
  runs : s.reader.Runs

theorem running_start : (start : Host ν).Running where
  exiting := nofun
  runs := nofun

variable {search : δ → List (Signal ν)}

theorem running_step {s t : Host ν} {i : HostInput δ} (hs : s.Running)
    (h : s.step search i = some t) : t.Running := by
  refine ⟨ended_of_exiting_step hs.exiting h, ?_⟩
  cases rule_of_step h with
  | ready hrun hr =>
    rw [reader_uploadFrom]
    rw [Reader.waitUntilReady] at hr
    split at hr
    · obtain rfl := Option.some.inj hr
      exact hs.runs
    · cases hr
  | chunk hrun =>
    simpa using hs.runs
  | pulse hrun hr =>
    rw [Reader.waitUntilPulse] at hr
    split at hr
    · obtain ⟨-, rfl⟩ := Prod.mk.inj (Option.some.inj hr)
      exact hs.runs
    · cases hr
  | receive hr => exact Reader.runs_receive hr
  | signal hr => exact Reader.runs_step hr
  | joinRun hrun => exact fun _ => rfl
  | _ => exact hs.runs

/-- The steps other than that the device is heard of. -/
def WorkerSide : HostInput δ → Prop
  | .receive _ => False
  | .request .. | .queue _ | .run | .read | .handleExit => True

/-! ### What has not been heard is not heard later -/

/-- The section of the run thread says what is to be heard. -/
theorem free_of_run {s : Host ν} {r : Run ν} (hrun : s.run = r) (hr : { s with run := r }.Free) :
    s.Free := by
  subst hrun
  exact hr

/-- A state that has heard as much, of a run thread in the same section. -/
theorem Free.mono {s t : Host ν} (h : t.Free) (hrun : t.run = s.run)
    (hfiles : ∀ path, t.files path = none → s.files path = none)
    (hready : t.reader.HeardReady → s.reader.HeardReady)
    (hpulse : t.reader.HeardPulse → s.reader.HeardPulse) : s.Free := by
  rw [Free.eq_def, hrun] at h
  cases hr : s.run with
  | read b =>
    rw [hr] at h
    exact free_of_run hr (h.imp (hfiles _) fun hheard => ⟨hready hheard.1, hpulse hheard.2⟩)
  | waitUntilReady b data =>
    rw [hr] at h
    exact free_of_run hr ⟨hready h.1, hpulse h.2⟩
  | upload b data i =>
    rw [hr] at h
    exact free_of_run hr (hpulse h)
  | waitUntilPulse b =>
    rw [hr] at h
    exact free_of_run hr (hpulse h)
  | loop | take | judge _ _ | remove _ | finish | ended => exact free_of_run hr trivial

/-- Writing a file does not make one disappear. -/
theorem free_files {s : Host ν} {calls : List Call} {path : ℕ} {bytes : List UInt8}
    (h : Free { s with
      files := Function.update s.files path (some bytes)
      calls := calls }) : s.Free := by
  refine h.mono rfl (fun path' hnone => ?_) id id
  have hupdate : Function.update s.files path (some bytes) path' = none := hnone
  by_cases hpath : path' = path
  · rw [hpath, Function.update_self] at hupdate
    cases hupdate
  · rwa [Function.update_of_ne hpath] at hupdate

/-- The state is free if it has come to wait for an answer, and the answer is
heard of. -/
@[simp] theorem free_uploadFrom {s : Host ν} {b : Bitstream} {data : List UInt8} {i : ℕ} :
    (s.uploadFrom b data i).Free ↔ s.reader.HeardPulse := by
  rw [uploadFrom]
  split <;> exact Iff.rfl

/-- **Steps without the device free no run thread.** -/
theorem free_of_step {s t : Host ν} {i : HostInput δ} (hs : s.Running) (hi : WorkerSide i)
    (h : s.step search i = some t) (ht : t.Free) : s.Free := by
  cases rule_of_step h with
  | request hlen hnodup hfresh => exact ht
  | write hk hc hd => exact free_files ht
  | raise hk hc => exact free_files ht
  | append hk hc => exact ht
  | loop hrun => exact free_of_run hrun trivial
  | leave hrun =>
    rcases hrun with hrun | hrun | ⟨b, hrun, hnone⟩
    · exact free_of_run hrun trivial
    · exact free_of_run hrun trivial
    · exact free_of_run hrun (Or.inl hnone)
  | take hrun hb => exact free_of_run hrun trivial
  | read hrun hfile => exact free_of_run hrun (Or.inr ht)
  | ready hrun hr =>
    -- the thread has found the device ready
    rw [free_uploadFrom] at ht
    rw [Reader.waitUntilReady] at hr
    split at hr
    · rename_i hready
      obtain rfl := Option.some.inj hr
      exact free_of_run hrun ⟨Or.inl hready, ht⟩
    · cases hr
  | chunk hrun =>
    have hpulse := free_uploadFrom.mp ht
    exact free_of_run hrun hpulse
  | pulse hrun hr =>
    -- it has found an answer, since the reader is not exiting
    rw [Reader.waitUntilPulse] at hr
    split at hr
    · rename_i hc
      rw [Free, hrun]
      have hnot : s.reader.exiting = false := Bool.eq_false_iff.mpr fun htrue => by
        cases hrun.symm.trans (hs.exiting htrue)
      rw [hnot, Bool.or_false] at hc
      obtain ⟨a, ha⟩ := Option.isSome_iff_exists.mp hc
      rw [Reader.HeardPulse, Reader.held, ha]
      exact List.cons_ne_nil _ _
    · cases hr
  | requeue hrun => exact free_of_run hrun trivial
  | store hrun => exact free_of_run hrun trivial
  | remove hrun => exact free_of_run hrun trivial
  | send hrun hqueue => exact free_of_run hrun trivial
  | keep hrun => exact free_of_run hrun trivial
  | receive hr => exact hi.elim
  | signal hr =>
    obtain ⟨hready, hpulse⟩ := Reader.heard_step hr
    exact ht.mono rfl (fun _ => id) hready hpulse
  | exit => exact ht
  | joinRun hrun => exact free_of_run hrun trivial

/-! ### What has been heard lets the run thread end -/

/-- The run thread can end without another word of the device. -/
def Ends (search : δ → List (Signal ν)) (s : Host ν) : Prop :=
  ∃ t, (machine search).ReachesBy (fun _ i => WorkerSide i) s t ∧ t.run = .ended

theorem Ends.head {s t : Host ν} {i : HostInput δ} (hi : WorkerSide i)
    (h : s.step search i = some t) (ht : Ends search t) : Ends search s := by
  obtain ⟨u, hu, hended⟩ := ht
  exact ⟨u, .head hi h hu, hended⟩

/-- **Only a free run thread can end.** -/
theorem free_of_ends {s : Host ν} (hs : s.Running) (h : Ends search s) : s.Free := by
  obtain ⟨t, ht, hended⟩ := h
  exact ht.reflects (I := Running) (P := Free) (fun _ _ _ h hstep => running_step h hstep)
    (fun _ _ _ h hi hstep hfree => free_of_step h hi hstep hfree) hs
    (free_of_run hended trivial)

variable {s : Host ν}

theorem ends_loop (hexit : s.exiting = true) (hrun : s.run = .loop) : Ends search s := by
  refine .head (i := .run) trivial (t := { s with run := .ended }) ?_ ⟨_, .refl _, rfl⟩
  show s.stepRun = _
  rw [stepRun.eq_def, hrun]
  simp only [hexit, if_true]

theorem ends_finish (hexit : s.exiting = true) (hrun : s.run = .finish) : Ends search s := by
  by_cases hqueue : s.bitstreamQueue = []
  · refine .head (i := .run) trivial (t := { s with
      handed := s.handed ++ [s.results]
      results := ∅
      run := .loop }) ?_ (ends_loop hexit rfl)
    show s.stepRun = _
    rw [stepRun.eq_def, hrun]
    simp only [hqueue, if_true]
  · refine .head (i := .run) trivial (t := { s with run := .loop }) ?_ (ends_loop hexit rfl)
    show s.stepRun = _
    rw [stepRun.eq_def, hrun]
    simp only [hqueue, if_false]

theorem ends_remove (hexit : s.exiting = true) {b : Bitstream} (hrun : s.run = .remove b) :
    Ends search s := by
  refine .head (i := .run) trivial (t := { s with
    files := Function.update s.files b.location none
    run := .finish }) ?_ (ends_finish hexit rfl)
  show s.stepRun = _
  rw [stepRun.eq_def, hrun]

theorem ends_judge (hexit : s.exiting = true) {b : Bitstream} {x : Option (Answer ν)}
    (hrun : s.run = .judge b x) : Ends search s := by
  cases x with
  | none =>
    refine .head (i := .run) trivial (t := s.store b none) ?_ (ends_remove hexit rfl)
    show s.stepRun = _
    rw [stepRun.eq_def, hrun]
  | some a =>
    cases a with
    | timeout =>
      refine .head (i := .run) trivial (t := { s with
        bitstreamQueue := s.bitstreamQueue ++ [b]
        run := .loop }) ?_ (ends_loop hexit rfl)
      show s.stepRun = _
      rw [stepRun.eq_def, hrun]
    | pulses n =>
      refine .head (i := .run) trivial (t := s.store b (some n)) ?_ (ends_remove hexit rfl)
      show s.stepRun = _
      rw [stepRun.eq_def, hrun]

theorem ends_waitUntilPulse (hexit : s.exiting = true) (hpulse : s.reader.lastPulse.isSome)
    {b : Bitstream} (hrun : s.run = .waitUntilPulse b) : Ends search s := by
  have hwait : s.reader.waitUntilPulse =
      some (s.reader.lastPulse, { s.reader with lastPulse := none }) := by
    rw [Reader.waitUntilPulse, hpulse, Bool.true_or, if_pos rfl]
  refine .head (i := .run) trivial (t := { s with
    reader := { s.reader with lastPulse := none }
    run := .judge b s.reader.lastPulse }) ?_ (ends_judge hexit rfl)
  show s.stepRun = _
  rw [stepRun.eq_def, hrun]
  simp only [hwait, Option.map_some]

theorem ends_upload (hexit : s.exiting = true) (hpulse : s.reader.lastPulse.isSome)
    {b : Bitstream} {data : List UInt8} {i : ℕ} (hrun : s.run = .upload b data i) :
    Ends search s := by
  -- by induction on what is left to write
  induction hn : data.length - i using Nat.strong_induction_on generalizing i s with
  | _ n ih =>
    have hstep : s.step search .run = some (({ s with
        wire := s.wire ++ (data.drop i).take chunkSize } : Host ν).uploadFrom b data
          (i + chunkSize)) := by
      show s.stepRun = _
      rw [stepRun.eq_def, hrun]
    rw [uploadFrom] at hstep
    by_cases hi : i + chunkSize < data.length
    · rw [if_pos hi] at hstep
      have hless : data.length - (i + chunkSize) < n := by
        rw [← hn, chunkSize]
        omega
      exact .head (i := .run) trivial hstep (ih _ hless hexit hpulse rfl rfl)
    · rw [if_neg hi] at hstep
      exact .head (i := .run) trivial hstep (ends_waitUntilPulse hexit hpulse rfl)

theorem ends_waitUntilReady (hexit : s.exiting = true) (hready : s.reader.ready = true)
    (hpulse : s.reader.lastPulse.isSome) {b : Bitstream} {data : List UInt8}
    (hrun : s.run = .waitUntilReady b data) : Ends search s := by
  have hwait : s.reader.waitUntilReady = some { s.reader with ready := false } := by
    rw [Reader.waitUntilReady, if_pos hready]
  have hstep : s.step search .run = some (({ s with
      reader := { s.reader with ready := false }
      wire := [] } : Host ν).uploadFrom b data 0) := by
    show s.stepRun = _
    rw [stepRun.eq_def, hrun]
    simp only [hwait, Option.map_some]
  rw [uploadFrom] at hstep
  split at hstep
  · exact .head (i := .run) trivial hstep (ends_upload hexit hpulse rfl)
  · exact .head (i := .run) trivial hstep (ends_waitUntilPulse hexit hpulse rfl)

/-- The reader may first go through its sections. -/
theorem ends_of_foldl {l : List (Signal ν)} {r : Reader ν} (hthread : r.thread = .reading)
    (hexit : r.exiting = false) (hr : s.reader = { r with thread := .signalling l })
    (h : Ends search { s with reader := l.foldl Reader.perform r }) : Ends search s := by
  induction l generalizing s r with
  | nil =>
    refine .head (i := .read) trivial (t := { s with reader := r }) ?_ h
    rw [step, hr, Reader.step_nil hthread hexit]
    rfl
  | cons x l ih =>
    refine .head (i := .read) trivial
      (t := { s with reader := { r.perform x with thread := .signalling l } }) ?_ ?_
    · simp [step, hr]
    · exact ih ((Reader.thread_perform r x).trans hthread)
        ((Reader.exiting_perform r x).trans hexit) rfl h

/-- **The reader comes to rest**, with `ready` and `last_pulse` set as heard. -/
theorem exists_settled (hthread : s.reader.thread ≠ .ended) (hexit : s.reader.exiting = false) :
    ∃ r : Reader ν, (s.reader.HeardReady → r.ready = true) ∧
      (s.reader.HeardPulse → r.lastPulse.isSome) ∧
      (Ends search { s with reader := r } → Ends search s) := by
  cases hr : s.reader.thread with
  | reading =>
    refine ⟨s.reader, ?_, ?_, id⟩
    · rintro (h | h)
      · exact h
      · rw [Reader.pending, hr] at h
        cases h
    · intro h
      rw [Reader.HeardPulse, Reader.held, hr, List.append_nil] at h
      exact Option.isSome_iff_ne_none.mpr fun hnone => h (hnone ▸ rfl)
  | signalling l =>
    have hreader : s.reader = { ({ s.reader with thread := .reading } : Reader ν) with
        thread := .signalling l } := by rw [← hr]
    refine ⟨l.foldl Reader.perform { s.reader with thread := .reading }, fun h => ?_, fun h => ?_,
      ends_of_foldl rfl hexit hreader⟩
    · rw [Reader.HeardReady, Reader.pending, hr] at h
      exact Reader.heard_foldl.1 h
    · rw [Reader.HeardPulse, Reader.held, hr] at h
      exact Reader.heard_foldl.2 h
  | ended => exact absurd hr hthread

/-- **A free run thread can end**, once `exiting` is set. -/
theorem ends_of_free (hs : s.Running) (hexit : s.exiting = true) (hfree : s.Free) :
    Ends search s := by
  by_cases hrunning : s.run = .ended
  · exact ⟨s, .refl s, hrunning⟩
  have hnot : s.reader.exiting = false := Bool.eq_false_iff.mpr fun h => hrunning (hs.exiting h)
  have hthread : s.reader.thread ≠ .ended := fun h => by
    rw [hs.runs h] at hnot
    cases hnot
  have hsettled : ∃ r : Reader ν, (s.reader.HeardReady → r.ready = true) ∧
      (s.reader.HeardPulse → r.lastPulse.isSome) ∧
      (Ends search { s with reader := r } → Ends search s) := exists_settled hthread hnot
  obtain ⟨r, hready, hpulse, hends⟩ := hsettled
  cases hrun : s.run with
  | loop => exact ends_loop hexit hrun
  | take =>
    refine .head (i := .run) trivial (t := { s with run := .ended }) ?_ ⟨_, .refl _, rfl⟩
    show s.stepRun = _
    rw [stepRun.eq_def, hrun]
    simp only [hexit, if_true]
  | read b =>
    cases hfile : s.files b.location with
    | none =>
      refine .head (i := .run) trivial (t := { s with run := .ended }) ?_ ⟨_, .refl _, rfl⟩
      show s.stepRun = _
      rw [stepRun.eq_def, hrun]
      simp only [hfile]
    | some data =>
      rw [Free, hrun] at hfree
      obtain ⟨hr, hp⟩ := hfree.resolve_left fun hnone => by
        rw [hfile] at hnone
        cases hnone
      refine hends (.head (i := .run) trivial (t := { s with
        reader := r
        run := .waitUntilReady b data }) ?_ (ends_waitUntilReady hexit (hready hr) (hpulse hp) rfl))
      show stepRun { s with reader := r } = _
      rw [stepRun.eq_def]
      simp only [hrun, hfile]
  | waitUntilReady b data =>
    rw [Free, hrun] at hfree
    exact hends (ends_waitUntilReady hexit (hready hfree.1) (hpulse hfree.2) hrun)
  | upload b data i =>
    rw [Free, hrun] at hfree
    exact hends (ends_upload hexit (hpulse hfree) hrun)
  | waitUntilPulse b =>
    rw [Free, hrun] at hfree
    exact hends (ends_waitUntilPulse hexit (hpulse hfree) hrun)
  | judge b x => exact ends_judge hexit hrun
  | remove b => exact ends_remove hexit hrun
  | finish => exact ends_finish hexit hrun
  | ended => exact absurd hrun hrunning

/-- **The exact condition for the run thread to end.** In every reachable state
in which `handleExit` has set `exiting`, steps of the worker without any further
output of the device lead to the end of the run thread exactly when all it still
waits for before it comes back to its loop has been heard. -/
theorem ends_iff (hreach : (machine search).Reaches start s) (hexit : s.exiting = true) :
    Ends search s ↔ s.Free := by
  have hs : s.Running := Machine.Reaches.invariant (I := Running)
    (fun _ _ _ h hstep => running_step h hstep) running_start hreach
  exact ⟨free_of_ends hs, ends_of_free hs hexit⟩

/-! ### A device that answers, and one that does not -/

/-- One bitstream of one byte. -/
def oneFile : Files := ⟨[("a", "x")], by decide⟩

/-- The bitstream is uploaded, and the run thread waits for the answer when
`handleExit` is called. -/
def exitedWaiting : List (HostInput (List Char)) :=
  [.request [1] oneFile, .queue 0, .queue 0, .run, .run, .run, .run, .run, .handleExit]

/-- The same with the answer read before. -/
def exitedAnswered : List (HostInput (List Char)) :=
  [.request [1] oneFile, .queue 0, .queue 0, .run, .run, .run, .run, .run,
    .receive "\r\n, pulses: 42\r\n".toList, .handleExit]

/-- The run thread and the reader, as far as the condition looks at them. -/
structure Waits where
  exiting : Bool
  waiting : Option String
  reader : Reader (List Char)
  deriving DecidableEq

def waits (s : Host (List Char)) : Waits where
  exiting := s.exiting
  waiting :=
    match s.run with
    | .waitUntilPulse b => some b.name
    | _ => none
  reader := s.reader

theorem waits_eq {s : Host (List Char)} {name : String} {r : Reader (List Char)}
    (h : waits s = ⟨true, some name, r⟩) :
    s.exiting = true ∧ (∃ b, s.run = .waitUntilPulse b) ∧ s.reader = r := by
  obtain ⟨hexit, hwaiting, hreader⟩ := Waits.mk.inj h
  refine ⟨hexit, ?_, hreader⟩
  split at hwaiting
  · exact ⟨_, ‹_›⟩
  · cases hwaiting

theorem exitedWaiting_run : ((machine signals).run start exitedWaiting).map waits =
    some ⟨true, some "a", ⟨false, none, false, .reading⟩⟩ := by
  decide

theorem exitedAnswered_run : ((machine signals).run start exitedAnswered).map waits =
    some ⟨true, some "a", ⟨false, none, false, .signalling [.pulses "42".toList]⟩⟩ := by
  decide

/-- With the answer read, the run thread can end. -/
theorem exitedAnswered_ends :
    ∃ s, (machine signals).Reaches start s ∧ s.exiting = true ∧ Ends signals s := by
  obtain ⟨s, hs, hwaits⟩ := Option.map_eq_some_iff.mp exitedAnswered_run
  obtain ⟨hexit, ⟨b, hrun⟩, hreader⟩ := waits_eq hwaits
  refine ⟨s, ⟨_, hs⟩, hexit, (ends_iff ⟨_, hs⟩ hexit).mpr ?_⟩
  rw [Free, hrun, Reader.HeardPulse, hreader]
  exact List.cons_ne_nil _ _

/-- **A board that hangs blocks `handleExit`**: nothing but its answer lets the
run thread end. -/
theorem exitedWaiting_blocked :
    ∃ s, (machine signals).Reaches start s ∧ s.exiting = true ∧ ¬Ends signals s := by
  obtain ⟨s, hs, hwaits⟩ := Option.map_eq_some_iff.mp exitedWaiting_run
  obtain ⟨hexit, ⟨b, hrun⟩, hreader⟩ := waits_eq hwaits
  refine ⟨s, ⟨_, hs⟩, hexit, fun hends => ?_⟩
  have hrunning : s.Running := Machine.invariant (I := Running)
    (fun _ _ _ h hstep => running_step h hstep) running_start hs
  have hfree := free_of_ends hrunning hends
  rw [Free, hrun, Reader.HeardPulse, hreader] at hfree
  exact hfree rfl

end Host

end UsbipIce.PulseCount
