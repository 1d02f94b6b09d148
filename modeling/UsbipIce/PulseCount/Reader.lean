import UsbipIce.Lib.Search

/-!
# The reader of a pulse-counting device

`Reader` of `worker/device/state/reservable/PulseCountState.py`: a thread that
reads the serial port and keeps two variables under a lock, `ready` and
`last_pulse`. What one `port.read` returned is searched three times, and each
search that finds something is a section of its own (`UsbipIce.PulseCount.signals`).

The sections do not look into the count they carry, so the reader is generic in
it. That `last_pulse` is a single slot, which a later message overwrites, is
what the users of this module have to reckon with.
-/

namespace UsbipIce.PulseCount

open Lib

/-- What a search of `Reader.read` that finds something makes it do. -/
inductive Signal (ν : Type*) where
  /-- `self.last_pulse = pulses.group(1)`. -/
  | pulses (n : ν)
  /-- `self.last_pulse = False`. -/
  | timeout
  /-- `self.ready = True`. -/
  | wait
  deriving DecidableEq, Repr

/-- A value of `last_pulse` other than `None`. -/
inductive Answer (ν : Type*) where
  | pulses (n : ν)
  /-- `False`. -/
  | timeout
  deriving DecidableEq, Repr

/-- What a signal writes to `last_pulse`, if it does. -/
def Signal.answer? {ν : Type*} : Signal ν → Option (Answer ν)
  | .pulses n => some (.pulses n)
  | .timeout => some .timeout
  | .wait => none

/-- The signal with the count replaced. -/
def Signal.map {ν μ : Type*} (f : ν → μ) : Signal ν → Signal μ
  | .pulses n => .pulses (f n)
  | .timeout => .timeout
  | .wait => .wait

/-- What some signals write to `last_pulse`, in order. -/
def answers {ν : Type*} (l : List (Signal ν)) : List (Answer ν) := l.filterMap Signal.answer?

/-- The answer with the count replaced. -/
def Answer.map {ν μ : Type*} (f : ν → μ) : Answer ν → Answer μ
  | .pulses n => .pulses (f n)
  | .timeout => .timeout

@[simp] theorem answers_map {ν μ : Type*} (f : ν → μ) (l : List (Signal ν)) :
    answers (l.map (Signal.map f)) = (answers l).map (Answer.map f) := by
  have hanswer : ∀ s : Signal ν, (s.map f).answer? = s.answer?.map (Answer.map f) := by
    rintro (n | - | -) <;> rfl
  rw [answers, answers, List.filterMap_map, List.map_filterMap]
  exact List.filterMap_congr fun s _ => hanswer s

/-! ### The three searches -/

/-- `re.search("pulses: ([0-9]+)", data)`, and its group. -/
def searchPulses : List Char → Option (List Char) :=
  search fun l => (l.dropPrefix? "pulses: ".toList).bind (many Char.isDigit)

/-- `re.search(p, data)` for a `p` without special characters. -/
def occurs (p : List Char) (data : List Char) : Bool :=
  (search (fun l => (l.dropPrefix? p).bind some) data).isSome

/-- **What `Reader.read` does about one read**: `data` is the text `str` makes
of the bytes. -/
def signals (data : List Char) : List (Signal (List Char)) :=
  (searchPulses data).toList.map .pulses ++
    (if occurs "Watchdog timeout".toList data then [.timeout] else []) ++
    if occurs "Waiting for bitstream transfer".toList data then [.wait] else []

/-- Without a `p` there is no count in the text. -/
theorem searchPulses_of_not_mem {data : List Char} (h : 'p' ∉ data) : searchPulses data = none :=
  search_eq_none_of_not_mem (startsWith_dropPrefix? _) h

/-- Without its first character, a literal does not occur. -/
@[simp] theorem occurs_of_not_mem {d : Char} {p data : List Char} (h : d ∉ data) :
    occurs (d :: p) data = false := by
  rw [occurs, search_eq_none_of_not_mem (startsWith_dropPrefix? _) h]
  rfl

/-! ### The thread -/

/-- Where the reader's thread is. -/
inductive ReadLoop (ν : Type*) where
  /-- In `port.read`. -/
  | reading
  /-- About to go through the sections for what it has read. -/
  | signalling (l : List (Signal ν))
  | ended
  deriving DecidableEq, Repr

/-- A `Reader`. -/
structure Reader (ν : Type*) where
  ready : Bool
  lastPulse : Option (Answer ν)
  exiting : Bool
  thread : ReadLoop ν
  deriving DecidableEq, Repr

namespace Reader

variable {ν : Type*}

/-- `Reader.__init__`. -/
def start : Reader ν where
  ready := true
  lastPulse := none
  exiting := false
  thread := .reading

/-- One section of `Reader.read`. -/
def perform (r : Reader ν) : Signal ν → Reader ν
  | .pulses n => { r with lastPulse := some (.pulses n) }
  | .timeout => { r with lastPulse := some .timeout }
  | .wait => { r with ready := true }

/-- `port.read` returns what leads to the signals `l`. -/
def receive (r : Reader ν) (l : List (Signal ν)) : Option (Reader ν) :=
  match r.thread with
  | .reading => some { r with thread := .signalling l }
  | .signalling _ | .ended => none

/-- The reader's thread goes on: to the next section, or to the condition of
its loop, also where `port.read` returned nothing. The port is closed only
after this thread has ended. -/
def step (r : Reader ν) : Option (Reader ν) :=
  match r.thread with
  | .signalling (s :: l) => some { r.perform s with thread := .signalling l }
  | .reading | .signalling [] =>
    some { r with thread := if r.exiting then .ended else .reading }
  | .ended => none

/-- The section of `waitUntilReady`, `none` while it has to wait. -/
def waitUntilReady (r : Reader ν) : Option (Reader ν) :=
  if r.ready then some { r with ready := false } else none

/-- The section of `waitUntilPulse`, with what it returns, `none` while it has
to wait. -/
def waitUntilPulse (r : Reader ν) : Option (Option (Answer ν) × Reader ν) :=
  if r.lastPulse.isSome || r.exiting then some (r.lastPulse, { r with lastPulse := none })
  else none

/-- The answers the reader has read and `waitUntilPulse` has not returned, the
oldest first: the one in `last_pulse`, and those about to be written there. -/
def held (r : Reader ν) : List (Answer ν) :=
  r.lastPulse.toList ++
    match r.thread with
    | .signalling l => answers l
    | .reading | .ended => []

/-! ### What the operations do to the answers held -/

theorem receive_spec {r r' : Reader ν} {l : List (Signal ν)} (h : r.receive l = some r') :
    r'.held = r.held ++ answers l ∧ r'.exiting = r.exiting := by
  rw [receive] at h
  split at h
  · rename_i hr
    obtain rfl := Option.some.inj h
    exact ⟨by simp [held, hr], rfl⟩
  · cases h
  · cases h

/-- A section for an answer puts it in the slot. -/
theorem perform_of_answer? {r : Reader ν} {s : Signal ν} {a : Answer ν} (h : s.answer? = some a) :
    (r.perform s).lastPulse = some a := by
  cases s with
  | pulses n => exact h
  | timeout => exact h
  | wait => cases h

@[simp] theorem perform_of_answer?_eq_none {r : Reader ν} {s : Signal ν} (h : s.answer? = none) :
    (r.perform s).lastPulse = r.lastPulse := by
  cases s with
  | pulses n => cases h
  | timeout => cases h
  | wait => rfl

@[simp]
theorem exiting_perform (r : Reader ν) (s : Signal ν) : (r.perform s).exiting = r.exiting := by
  cases s <;> rfl

@[simp] theorem thread_perform (r : Reader ν) (s : Signal ν) : (r.perform s).thread = r.thread := by
  cases s <;> rfl

/-- The reader goes through the first of its sections. -/
@[simp] theorem step_cons (r : Reader ν) (s : Signal ν) (l : List (Signal ν)) :
    step { r with thread := .signalling (s :: l) } =
      some { r.perform s with thread := .signalling l } := by
  cases s <;> rfl

/-- The reader is through with its sections and reads again. -/
theorem step_nil {r : Reader ν} (hthread : r.thread = .reading) (hexit : r.exiting = false) :
    step { r with thread := .signalling [] } = some r := by
  have hrunning : ¬(r.exiting = true) := by rw [hexit]; exact Bool.false_ne_true
  show some { r with thread := if r.exiting = true then ReadLoop.ended else .reading } = _
  rw [if_neg hrunning, ← hthread]

theorem exiting_step {r r' : Reader ν} (h : r.step = some r') : r'.exiting = r.exiting := by
  rw [step] at h
  split at h
  · obtain rfl := Option.some.inj h
    exact exiting_perform r _
  · obtain rfl := Option.some.inj h
    rfl
  · obtain rfl := Option.some.inj h
    rfl
  · cases h

/-- **The slot is overwritten only where two answers are held**: otherwise a
step of the reader's thread leaves what it holds. -/
theorem held_step {r r' : Reader ν} (h : r.step = some r') (hlen : r.held.length ≤ 1) :
    r'.held = r.held := by
  rw [step] at h
  split at h
  · rename_i s l hr
    obtain rfl := Option.some.inj h
    cases hs : s.answer? with
    | none =>
      simp only [held, perform_of_answer?_eq_none hs, hr, answers, List.filterMap_cons, hs]
    | some a =>
      have hslot : r.lastPulse = none := by
        rw [← Option.toList_eq_nil_iff, ← List.length_eq_zero_iff]
        simp only [held, hr, answers, List.filterMap_cons, hs, List.length_append,
          List.length_cons] at hlen
        omega
      simp only [held, perform_of_answer? hs, hslot, hr, answers, List.filterMap_cons, hs]
      rfl
  · rename_i hr
    obtain rfl := Option.some.inj h
    by_cases he : r.exiting = true <;> simp [held, hr, he]
  · rename_i hr
    obtain rfl := Option.some.inj h
    by_cases he : r.exiting = true <;> simp [held, hr, he, answers]
  · cases h

theorem waitUntilReady_spec {r r' : Reader ν} (h : r.waitUntilReady = some r') :
    r'.held = r.held ∧ r'.exiting = r.exiting := by
  rw [waitUntilReady] at h
  split at h
  · obtain rfl := Option.some.inj h
    exact ⟨rfl, rfl⟩
  · cases h

/-- **What `waitUntilPulse` returns**: the oldest answer held, or `None` where
the reader is exiting. -/
theorem waitUntilPulse_spec {r r' : Reader ν} {result : Option (Answer ν)}
    (h : r.waitUntilPulse = some (result, r')) :
    r'.exiting = r.exiting ∧ r.held = result.toList ++ r'.held ∧
      (result = none → r.exiting = true) := by
  rw [waitUntilPulse] at h
  split at h
  · rename_i hc
    obtain ⟨rfl, rfl⟩ := Prod.mk.inj (Option.some.inj h)
    refine ⟨rfl, rfl, fun hnone => ?_⟩
    rwa [hnone, Option.isSome_none, Bool.false_or] at hc
  · cases h

end Reader

end UsbipIce.PulseCount
