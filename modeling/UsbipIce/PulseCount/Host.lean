import UsbipIce.Lib.Cp437
import UsbipIce.Lib.Machine
import UsbipIce.Lib.Table
import UsbipIce.PulseCount.Reader

/-!
# The host side of pulse counting

`PulseCountState` of `worker/device/state/reservable/PulseCountState.py`. A
request `evaluate` writes its files to the media path and then puts them on
`bitstream_queue` (`queue`); a thread of its own takes them from there one at a
time, uploads each over the serial port, waits for the answer and collects the
counts in `results`, which it sends when the queue is empty (`run`).

A request and the run thread interleave freely, except within the sections
under `cv`, each of which is one step here. The run thread goes from section to
section; between them it does one thing at a time: it reads a file, writes a
chunk to the port, records a result, removes a file.

What the outside does comes in as inputs: the requests, with the names that
`uuid4` gives their files, what `port.read` returns, and the call of
`handleExit`. The machine accepts only fresh names from `uuid4`. What is read
from the port is left open (`δ`), together with the signals it leads to:
`UsbipIce.PulseCount.signals` for the text that the source searches.
-/

namespace UsbipIce.PulseCount

open Lib

/-- `CHUNK_SIZE`. -/
def chunkSize : ℕ := 512

/-- A queued bitstream. -/
structure Bitstream where
  /-- The file under the media path, by the `uuid4` it is named after. -/
  location : ℕ
  name : String
  deriving DecidableEq, Repr

/-- The `files` of a request: each name with its contents as text. -/
abbrev Files := Table (String × String) Prod.fst

/-- A dictionary from names to counts; a count may be `None`. -/
abbrev Results (ν : Type*) := Table (String × Option ν) Prod.fst

/-- A call of `queue` under way. -/
structure Call where
  paths : List ℕ
  files : Files
  /-- How many of the files it has written. -/
  written : ℕ

/-- `zip(paths, files.values())`. -/
def Call.contents (c : Call) : List (ℕ × String) := c.paths.zip (c.files.rows.map Prod.snd)

/-- `Bitstream(path, name) for path, name in zip(paths, files.keys())`. -/
def Call.bitstreams (c : Call) : List Bitstream :=
  (c.paths.zip c.files.keys).map fun p => ⟨p.1, p.2⟩

/-- What a call is asked for: each entry of its dictionary, at its path. -/
def Call.entries (c : Call) : List (Bitstream × String) :=
  (c.paths.zip c.files.rows).map fun p => (⟨p.1, p.2.1⟩, p.2.2)

/-- Where the run thread is. -/
inductive Run (ν : Type*) where
  /-- At the condition of the loop. -/
  | loop
  /-- At the section that takes a bitstream. -/
  | take
  /-- About to read the file. -/
  | read (b : Bitstream)
  | waitUntilReady (b : Bitstream) (data : List UInt8)
  /-- About to write the chunk at `i`. -/
  | upload (b : Bitstream) (data : List UInt8) (i : ℕ)
  | waitUntilPulse (b : Bitstream)
  /-- At `result is False`. -/
  | judge (b : Bitstream) (result : Option (Answer ν))
  /-- About to remove the file. -/
  | remove (b : Bitstream)
  /-- At the section that sends the results. -/
  | finish
  | ended

/-- Where `handleExit` is. -/
inductive Exit where
  | notCalled
  /-- Joining the run thread. -/
  | joinRun
  /-- Joining the reader's thread. -/
  | joinReader
  | done
  deriving DecidableEq, Repr

/-- What has happened so far. Nothing in the source reads it. -/
structure History (ν : Type*) where
  /-- The names of all requests. -/
  requested : List String
  /-- What `uuid4` has returned. -/
  issued : List ℕ
  /-- What was put on the queue by requests, with the contents it was submitted
  with. -/
  submitted : List (Bitstream × String)
  /-- The complete uploads, each with the bytes written to the port. -/
  uploads : List (Bitstream × List UInt8)
  /-- The answers in what was read from the port. -/
  answers : List (Answer ν)
  /-- The assignments to `self.results[bitstream.name]`. -/
  stored : List (Bitstream × Option ν)

/-- A `PulseCountState` with its threads. -/
structure Host (ν : Type*) where
  bitstreamQueue : List Bitstream
  results : Results ν
  exiting : Bool
  reader : Reader ν
  run : Run ν
  calls : List Call
  exit : Exit
  /-- The files under the media path. -/
  files : ℕ → Option (List UInt8)
  /-- The bytes of the upload under way that are written to the port. -/
  wire : List UInt8
  /-- What was handed to `finished` and is forgotten then, whether an event has come of
  it or not. -/
  handed : List (Results ν)
  history : History ν

/-- What a `PulseCountState` is driven by: `δ` is what a read of the port
returns. -/
inductive HostInput (δ : Type*) where
  /-- A request `evaluate`, with what `uuid4` returns for its files. -/
  | request (paths : List ℕ) (files : Files)
  /-- Call `k` of `queue` goes on. -/
  | queue (k : ℕ)
  /-- The run thread goes on. -/
  | run
  /-- `port.read` returns something. -/
  | receive (data : δ)
  /-- The reader's thread goes on. -/
  | read
  /-- `handleExit` is called, or goes on. -/
  | handleExit

namespace Host

variable {ν : Type*}

/-- `PulseCountState.__init__`, after the port is found. -/
def start : Host ν where
  bitstreamQueue := []
  results := ∅
  exiting := false
  reader := .start
  run := .loop
  calls := []
  exit := .notCalled
  files := fun _ => none
  wire := []
  handed := []
  history :=
    { requested := []
      issued := []
      submitted := []
      uploads := []
      answers := []
      stored := [] }

/-- `queue` is called and chooses its paths. -/
def request (s : Host ν) (paths : List ℕ) (files : Files) : Option (Host ν) :=
  if paths.length = files.rows.length ∧ paths.Nodup ∧ ∀ p ∈ paths, p ∉ s.history.issued then
    some { s with
      calls := s.calls ++ [⟨paths, files, 0⟩]
      history :=
        { s.history with
          requested := s.history.requested ++ files.keys
          issued := s.history.issued ++ paths } }
  else none

/-- A call of `queue` writes its next file, or, when all are written, goes
through the section that puts them on the queue. A file is opened before its
contents are encoded, and contents that cannot be end the call. -/
def stepCall (s : Host ν) (k : ℕ) (c : Call) : Host ν :=
  match c.contents[c.written]? with
  | some (path, data) =>
    match Cp437.encode data with
    | some bytes =>
      { s with
        files := Function.update s.files path (some bytes)
        calls := s.calls.set k { c with written := c.written + 1 } }
    | none =>
      { s with
        files := Function.update s.files path (some [])
        calls := s.calls.eraseIdx k }
  | none =>
    { s with
      bitstreamQueue := s.bitstreamQueue ++ c.bitstreams
      calls := s.calls.eraseIdx k
      history :=
        { s.history with
          submitted := s.history.submitted ++ c.entries } }

/-- The loop over the chunks goes on at `i`: it is over when `i` is past the
end, and the upload complete. -/
def uploadFrom (s : Host ν) (b : Bitstream) (data : List UInt8) (i : ℕ) : Host ν :=
  if i < data.length then { s with run := .upload b data i }
  else
    { s with
      run := .waitUntilPulse b
      history := { s.history with uploads := s.history.uploads ++ [(b, s.wire)] } }

/-- `self.results[bitstream.name] = result`. -/
def store (s : Host ν) (b : Bitstream) (n : Option ν) : Host ν :=
  { s with
    results := s.results.put (b.name, n)
    run := .remove b
    history := { s.history with stored := s.history.stored ++ [(b, n)] } }

/-- The run thread goes on, `none` where it waits or has ended. An exception,
as for a file that is missing, ends it. -/
def stepRun (s : Host ν) : Option (Host ν) :=
  match s.run with
  | .loop => some { s with run := if s.exiting then .ended else .take }
  | .take =>
    if s.exiting then some { s with run := .ended }
    else
      -- `pop` takes the last; on an empty queue the thread waits
      s.bitstreamQueue.getLast?.map fun b =>
        { s with
          bitstreamQueue := s.bitstreamQueue.dropLast
          run := .read b }
  | .read b =>
    match s.files b.location with
    | some data => some { s with run := .waitUntilReady b data }
    | none => some { s with run := .ended }
  | .waitUntilReady b data =>
    s.reader.waitUntilReady.map fun reader =>
      ({ s with
        reader := reader
        wire := [] } : Host ν).uploadFrom b data 0
  | .upload b data i =>
    some (({ s with wire := s.wire ++ (data.drop i).take chunkSize } : Host ν).uploadFrom b data
      (i + chunkSize))
  | .waitUntilPulse b =>
    s.reader.waitUntilPulse.map fun p =>
      { s with
        reader := p.2
        run := .judge b p.1 }
  | .judge b (some .timeout) =>
    some { s with
      bitstreamQueue := s.bitstreamQueue ++ [b]
      run := .loop }
  | .judge b (some (.pulses n)) => some (s.store b (some n))
  | .judge b none => some (s.store b none)
  | .remove b =>
    some { s with
      files := Function.update s.files b.location none
      run := .finish }
  | .finish =>
    -- what `finished` answers decides only what is logged
    if s.bitstreamQueue = [] then
      some { s with
        handed := s.handed ++ [s.results]
        results := ∅
        run := .loop }
    else some { s with run := .loop }
  | .ended => none

/-- `handleExit`, from one join to the next. -/
def stepExit (s : Host ν) : Option (Host ν) :=
  match s.exit with
  | .notCalled =>
    some { s with
      exiting := true
      exit := .joinRun }
  | .joinRun =>
    match s.run with
    | .ended =>
      some { s with
        reader := { s.reader with exiting := true }
        exit := .joinReader }
    | _ => none
  | .joinReader =>
    match s.reader.thread with
    | .ended => some { s with exit := .done }
    | .reading | .signalling _ => none
  | .done => none

variable {δ : Type*} (search : δ → List (Signal ν))

/-- One step. -/
def step (s : Host ν) : HostInput δ → Option (Host ν)
  | .request paths files => s.request paths files
  | .queue k => s.calls[k]?.map (s.stepCall k)
  | .run => s.stepRun
  | .receive data =>
    (s.reader.receive (search data)).map fun reader =>
      { s with
        reader := reader
        history := { s.history with answers := s.history.answers ++ answers (search data) } }
  | .read => s.reader.step.map fun reader => { s with reader := reader }
  | .handleExit => s.stepExit

/-- A `PulseCountState` as a machine. -/
def machine : Machine (Host ν) (HostInput δ) := ⟨step search⟩

/-! ### What a step can do -/

/-- **The rules**: every way in which a step changes the state. -/
inductive Rule (s : Host ν) : HostInput δ → Host ν → Prop
  /-- A request arrives. -/
  | request {paths : List ℕ} {files : Files} (hlen : paths.length = files.rows.length)
      (hnodup : paths.Nodup) (hfresh : ∀ p ∈ paths, p ∉ s.history.issued) :
      Rule s (.request paths files)
        { s with
          calls := s.calls ++ [⟨paths, files, 0⟩]
          history :=
            { s.history with
              requested := s.history.requested ++ files.keys
              issued := s.history.issued ++ paths } }
  /-- A call writes a file. -/
  | write {k : ℕ} {c : Call} {path : ℕ} {data : String} {bytes : List UInt8}
      (hk : s.calls[k]? = some c) (hc : c.contents[c.written]? = some (path, data))
      (hd : Cp437.encode data = some bytes) :
      Rule s (.queue k)
        { s with
          files := Function.update s.files path (some bytes)
          calls := s.calls.set k { c with written := c.written + 1 } }
  /-- A call finds contents that cannot be encoded. -/
  | raise {k : ℕ} {c : Call} {path : ℕ} {data : String} (hk : s.calls[k]? = some c)
      (hc : c.contents[c.written]? = some (path, data)) :
      Rule s (.queue k)
        { s with
          files := Function.update s.files path (some [])
          calls := s.calls.eraseIdx k }
  /-- A call puts its bitstreams on the queue. -/
  | append {k : ℕ} {c : Call} (hk : s.calls[k]? = some c) (hc : c.contents[c.written]? = none) :
      Rule s (.queue k)
        { s with
          bitstreamQueue := s.bitstreamQueue ++ c.bitstreams
          calls := s.calls.eraseIdx k
          history :=
            { s.history with submitted := s.history.submitted ++ c.entries } }
  /-- The run thread is not to stop. -/
  | loop (hrun : s.run = .loop) : Rule s .run { s with run := .take }
  /-- The run thread returns, or dies of an exception. -/
  | leave (hrun : s.run = .loop ∨ s.run = .take ∨
      ∃ b, s.run = .read b ∧ s.files b.location = none) :
      Rule s .run { s with run := .ended }
  /-- A bitstream is taken from the queue. -/
  | take {b : Bitstream} (hrun : s.run = .take) (hb : s.bitstreamQueue.getLast? = some b) :
      Rule s .run
        { s with
          bitstreamQueue := s.bitstreamQueue.dropLast
          run := .read b }
  /-- Its file is read. -/
  | read {b : Bitstream} {data : List UInt8} (hrun : s.run = .read b)
      (hfile : s.files b.location = some data) :
      Rule s .run { s with run := .waitUntilReady b data }
  /-- The device is ready. -/
  | ready {b : Bitstream} {data : List UInt8} {reader : Reader ν}
      (hrun : s.run = .waitUntilReady b data) (hr : s.reader.waitUntilReady = some reader) :
      Rule s .run
        (({ s with
          reader := reader
          wire := [] } : Host ν).uploadFrom b data 0)
  /-- A chunk is written to the port. -/
  | chunk {b : Bitstream} {data : List UInt8} {i : ℕ} (hrun : s.run = .upload b data i) :
      Rule s .run
        (({ s with wire := s.wire ++ (data.drop i).take chunkSize } : Host ν).uploadFrom b data
          (i + chunkSize))
  /-- An answer is there. -/
  | pulse {b : Bitstream} {result : Option (Answer ν)} {reader : Reader ν}
      (hrun : s.run = .waitUntilPulse b) (hr : s.reader.waitUntilPulse = some (result, reader)) :
      Rule s .run
        { s with
          reader := reader
          run := .judge b result }
  /-- The answer was a timeout. -/
  | requeue {b : Bitstream} (hrun : s.run = .judge b (some .timeout)) :
      Rule s .run
        { s with
          bitstreamQueue := s.bitstreamQueue ++ [b]
          run := .loop }
  /-- It was not. -/
  | store {b : Bitstream} {n : Option ν} (hrun : s.run = .judge b (n.map .pulses)) :
      Rule s .run (s.store b n)
  /-- The file is removed. -/
  | remove {b : Bitstream} (hrun : s.run = .remove b) :
      Rule s .run
        { s with
          files := Function.update s.files b.location none
          run := .finish }
  /-- The results are handed to `finished`. -/
  | send (hrun : s.run = .finish) (hqueue : s.bitstreamQueue = []) :
      Rule s .run
        { s with
          handed := s.handed ++ [s.results]
          results := ∅
          run := .loop }
  /-- More is queued. -/
  | keep (hrun : s.run = .finish) : Rule s .run { s with run := .loop }
  /-- The reader reads. -/
  | receive {data : δ} {reader : Reader ν} (hr : s.reader.receive (search data) = some reader) :
      Rule s (.receive data)
        { s with
          reader := reader
          history :=
            { s.history with answers := s.history.answers ++ answers (search data) } }
  /-- The reader goes through a section, or round its loop. -/
  | signal {reader : Reader ν} (hr : s.reader.step = some reader) :
      Rule s .read { s with reader := reader }
  /-- `handleExit` is called, or has joined the reader's thread. -/
  | exit {exiting : Bool} {e : Exit} : Rule s .handleExit { s with exiting := exiting, exit := e }
  /-- `handleExit` has joined the run thread. -/
  | joinRun {e : Exit} (hrun : s.run = .ended) :
      Rule s .handleExit
        { s with
          reader := { s.reader with exiting := true }
          exit := e }

variable {search}

theorem rule_stepRun {s t : Host ν} (h : s.stepRun = some t) : Rule search s .run t := by
  rw [stepRun.eq_def] at h
  split at h
  · rename_i hrun
    obtain rfl := Option.some.inj h
    by_cases hex : s.exiting = true
    · rw [if_pos hex]
      exact .leave (Or.inl hrun)
    · rw [if_neg hex]
      exact .loop hrun
  · rename_i hrun
    split at h
    · obtain rfl := Option.some.inj h
      exact .leave (Or.inr (Or.inl hrun))
    · obtain ⟨b, hb, rfl⟩ := Option.map_eq_some_iff.mp h
      exact .take hrun hb
  · rename_i b hrun
    split at h
    · obtain rfl := Option.some.inj h
      exact .read hrun ‹_›
    · obtain rfl := Option.some.inj h
      exact .leave (Or.inr (Or.inr ⟨b, hrun, ‹_›⟩))
  · obtain ⟨reader, hr, rfl⟩ := Option.map_eq_some_iff.mp h
    exact .ready ‹_› hr
  · obtain rfl := Option.some.inj h
    exact .chunk ‹_›
  · obtain ⟨⟨result, reader⟩, hr, rfl⟩ := Option.map_eq_some_iff.mp h
    exact .pulse ‹_› hr
  · obtain rfl := Option.some.inj h
    exact .requeue ‹_›
  · obtain rfl := Option.some.inj h
    exact .store ‹_›
  · obtain rfl := Option.some.inj h
    exact .store ‹_›
  · obtain rfl := Option.some.inj h
    exact .remove ‹_›
  · split at h
    · obtain rfl := Option.some.inj h
      exact .send ‹_› ‹_›
    · obtain rfl := Option.some.inj h
      exact .keep ‹_›
  · cases h

theorem rule_stepExit {s t : Host ν} (h : s.stepExit = some t) :
    Rule search s .handleExit t := by
  rw [stepExit.eq_def] at h
  split at h
  · obtain rfl := Option.some.inj h
    exact .exit
  · split at h
    · obtain rfl := Option.some.inj h
      exact .joinRun ‹_›
    · cases h
  · split at h
    · obtain rfl := Option.some.inj h
      exact .exit
    · cases h
    · cases h
  · cases h

/-- **A step is an instance of a rule.** -/
theorem rule_of_step {s t : Host ν} {i : HostInput δ} (h : s.step search i = some t) :
    Rule search s i t := by
  cases i with
  | request paths files =>
    simp only [step, request] at h
    split at h
    · rename_i hc
      obtain rfl := Option.some.inj h
      exact .request hc.1 hc.2.1 hc.2.2
    · cases h
  | queue k =>
    obtain ⟨c, hk, rfl⟩ := Option.map_eq_some_iff.mp h
    rw [stepCall.eq_def]
    split
    · split
      · exact .write hk ‹_› ‹_›
      · exact .raise hk ‹_›
    · exact .append hk ‹_›
  | run => exact rule_stepRun h
  | receive data =>
    obtain ⟨reader, hr, rfl⟩ := Option.map_eq_some_iff.mp h
    exact .receive hr
  | read =>
    obtain ⟨reader, hr, rfl⟩ := Option.map_eq_some_iff.mp h
    exact .signal hr
  | handleExit => exact rule_stepExit h

/-- **The loop over the chunks** moves the run thread and completes uploads, and
leaves everything else alone. -/
theorem uploadFrom_eq (s : Host ν) (b : Bitstream) (data : List UInt8) (i : ℕ) :
    ∃ run uploads, s.uploadFrom b data i = { s with
      run := run
      history := { s.history with uploads := uploads } } := by
  rw [uploadFrom]
  split
  · exact ⟨_, s.history.uploads, rfl⟩
  · exact ⟨_, _, rfl⟩

@[simp] theorem reader_uploadFrom (s : Host ν) (b : Bitstream) (data : List UInt8) (i : ℕ) :
    (s.uploadFrom b data i).reader = s.reader := by
  obtain ⟨run, uploads, heq⟩ := s.uploadFrom_eq b data i
  rw [heq]

/-- **The reader does not exit before the run thread has ended.** -/
theorem ended_of_exiting_step {s t : Host ν} {i : HostInput δ}
    (hs : s.reader.exiting = true → s.run = .ended) (h : s.step search i = some t) :
    t.reader.exiting = true → t.run = .ended := by
  -- a thread that goes on has not ended, so the reader is not exiting
  have hgoes : ∀ {r : Run ν}, s.run = r → r ≠ .ended → s.reader.exiting = true → False :=
    fun hrun hne htrue => hne (hrun.symm.trans (hs htrue))
  intro htrue
  cases rule_of_step h with
  | loop hrun => exact (hgoes hrun nofun htrue).elim
  | leave hrun => rfl
  | take hrun hb => exact (hgoes hrun nofun htrue).elim
  | read hrun hfile => exact (hgoes hrun nofun htrue).elim
  | ready hrun hr =>
    rw [reader_uploadFrom] at htrue
    exact (hgoes hrun nofun ((Reader.waitUntilReady_spec hr).2 ▸ htrue)).elim
  | chunk hrun =>
    rw [reader_uploadFrom] at htrue
    exact (hgoes hrun nofun htrue).elim
  | pulse hrun hr => exact (hgoes hrun nofun ((Reader.waitUntilPulse_spec hr).1 ▸ htrue)).elim
  | requeue hrun => exact (hgoes hrun nofun htrue).elim
  | @store b n hrun => exact (hgoes hrun nofun htrue).elim
  | remove hrun => exact (hgoes hrun nofun htrue).elim
  | send hrun hqueue => exact (hgoes hrun nofun htrue).elim
  | keep hrun => exact (hgoes hrun nofun htrue).elim
  | receive hr => exact hs ((Reader.receive_spec hr).2 ▸ htrue)
  | signal hr => exact hs (Reader.exiting_step hr ▸ htrue)
  | joinRun hrun => exact hrun
  | _ => exact hs htrue

end Host

end UsbipIce.PulseCount
