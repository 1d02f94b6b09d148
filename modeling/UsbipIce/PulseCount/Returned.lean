import UsbipIce.Client.PulseCountClient
import UsbipIce.Client.Requests
import UsbipIce.PulseCount.Reports

/-!
# What `evaluate` returns

The whole way of a bitstream and of its count: `PulseCountClient.evaluate` makes
an identifier for each path, `PulseCountBaseClient.evaluate` reads the files and
decodes them into text, `requestBatchWorker` sends the text to the workers as
JSON, `handle` of the worker has its threads ask the devices, `queue` of the
device encodes the text again, and `run` uploads it and reports the count under
the identifier; the report comes back as an event, and `evaluate` puts the paths
in place of the identifiers.

The machine here is one client with one of its devices. Requests may arrive late,
a thread of `handle` may find another serial than its own, reports may arrive
late, more than once, or while the next call is under way. None of this makes a
count come out under the wrong path: **what `evaluate` returns for a device
either belongs to an earlier call, and then has no path in it, or has every path
of the call**, each with a count that answered an upload of just the bytes that
the call read there (`UsbipIce.Evaluator.counted_of_returned`). What it takes is
that `uuid4` does not repeat itself, and that the device answers each complete
upload at most once.
-/

namespace UsbipIce

open Lib PulseCount Worker

/-! ### The files of a request -/

namespace PulseCount

variable {μ : Type*}

/-- The dictionary of files, as JSON. -/
def filesJson (files : Files) : Json μ := .object (files.rows.map fun r => (r.1, .str r.2))

/-- The rows of a dictionary whose values are strings. -/
def textRows : List (String × Json μ) → Option (List (String × String))
  | [] => some []
  | (name, .str text) :: fields => (textRows fields).map ((name, text) :: ·)
  | _ :: _ => none

/-- `files`, where it is what `queue` can put on the queue. -/
def filesOf : Json μ → Option Files
  | .object fields =>
    (textRows fields).bind fun rows =>
      if h : (rows.map Prod.fst).Nodup then some ⟨rows, h⟩ else none
  | _ => none

@[simp] theorem textRows_map (rows : List (String × String)) :
    textRows (rows.map fun r => (r.1, (.str r.2 : Json μ))) = some rows := by
  induction rows with
  | nil => rfl
  | cons r rows ih => rw [List.map_cons, textRows, ih, Option.map_some]

/-- **The files come through.** -/
@[simp]
theorem filesOf_filesJson (files : Files) : filesOf (filesJson files : Json μ) = some files := by
  simp [filesJson, filesOf, files.nodup]

/-- `EventMethod.__call__` for the one method of a `PulseCountState`: the files that
`queue` is called with. -/
def queueFiles : Value (Json μ) → Value (Json μ) → Option Files
  | .other (.str "evaluate"), .other (.object contents) => (Json.get contents "files").bind filesOf
  | _, _ => none

/-- `files[iden] = f.read().decode("cp437")`, over the paths by their identifiers;
`read` is what each of the files held when it was read. -/
def readFiles (bitstreams : Files) (read : String → List UInt8) : Files where
  rows := bitstreams.rows.map fun r => (r.1, Cp437.decode (read r.1))
  nodup := by
    rw [List.map_map]
    exact bitstreams.nodup

@[simp] theorem keys_readFiles (bitstreams : Files) (read : String → List UInt8) :
    (readFiles bitstreams read).keys = bitstreams.keys := by
  rw [readFiles, Table.keys, Table.keys, List.map_map]
  rfl

end PulseCount

/-! ### The machine -/

/-- What lies between the client and the device. -/
structure Wiring (μ : Type*) where
  /-- `json.dumps`. -/
  dumps : Json μ → Option String
  /-- `json.loads`. -/
  loads : String → Option (Json μ)
  loads_dumps : ∀ v text, dumps v = some text → loads text = some v
  /-- The id of the client, as the worker knows its socket. -/
  clientId : String
  /-- The serial of the device. -/
  serial : String

/-- A batch of requests at the worker: the loop that starts its threads, and what
they pass on. -/
structure Passing (μ : Type*) where
  loop : LoopState (Json μ)
  event : Value (Json μ)
  contents : Value (Json μ)

/-- A `PulseCountClient` and one of its devices. -/
structure Evaluator (μ ν : Type*) where
  client : PulseCountClient (Option ν)
  /-- The `files` that `PulseCountBaseClient.evaluate` has made last. -/
  files : Files
  /-- What has been emitted and not arrived. -/
  emitted : List Emission
  passing : List (Passing μ)
  host : Host ν
  /-- The calls of `evaluate`, each with its paths by their identifiers, and the
  identifiers and paths of the files read, with what was read. Nothing in the
  source reads these two. -/
  evaluations : List (List (String × String))
  reads : List (String × String × List UInt8)

/-- What happens next. -/
inductive EvaluatorInput (ν δ : Type*) where
  /-- `evaluate` is called; each path comes with the uuid made for it. -/
  | evaluate (paths : List (String × String))
  /-- The call goes on; `read` is what it reads from the files. -/
  | run (ok : Bool) (read : String → List UInt8)
  /-- Emission `k` arrives at the worker. -/
  | arrive (k : ℕ)
  /-- The loop over batch `k` goes on. -/
  | next (k : ℕ)
  /-- Thread `j` of batch `k` calls `handleRequest`; `uuid4` returns the paths. -/
  | thread (k j : ℕ) (paths : List ℕ)
  /-- The device goes on. -/
  | device (i : HostInput δ)
  /-- Event `k` of the device arrives at the client. -/
  | report (k : ℕ)
  /-- Another device reports. -/
  | results (serial : String) (value : Results ν)
  | handleReservationEnd (serial : String)
  | handleFailure (serial : String)

namespace Evaluator

variable {μ ν δ : Type*}

/-- Nothing has been evaluated. -/
def start (client : Client) : Evaluator μ ν where
  client :=
    { client := client
      uuidMap := ∅
      results := ∅
      remainingSerials := []
      call := .idle
      sent := []
      reported := [] }
  files := ∅
  emitted := []
  passing := []
  host := .start
  evaluations := []
  reads := []

/-- The dictionary that `requestBatchWorker` packs. -/
def batchPacket (batch : List String) (event : String) (data : Json μ) : Json μ :=
  .object [("serial", .array (batch.map .str)), ("event", .str event), ("contents", data)]

/-- The request `evaluate` for some files. -/
def evaluatePacket (batch : List String) (files : Files) : Json μ :=
  batchPacket batch "evaluate" (.object [("files", filesJson files)])

/-- The files have been read. -/
def readAll (s : Evaluator μ ν) (read : String → List UInt8) : Evaluator μ ν :=
  { s with
    files := readFiles s.client.uuidMap read
    reads := s.reads ++ s.client.uuidMap.rows.map fun r => (r.1, r.2, read r.1) }

/-- The call of the client is elsewhere. -/
def setCall (s : Evaluator μ ν) (call : EvaluateCall (Option ν)) : Evaluator μ ν :=
  { s with client := { s.client with call := call } }

/-- The batch has been sent. -/
def send (s : Evaluator μ ν) (batch : List String) (e : Emission) : Evaluator μ ν :=
  { s with
    client := { s.client with sent := s.client.sent ++ batch }
    emitted := s.emitted ++ [e] }

/-- The call of `evaluate` goes on. -/
def stepCall (w : Wiring μ) (s : Evaluator μ ν) (ok : Bool) (read : String → List UInt8) :
    Option (Evaluator μ ν) :=
  match s.client.call with
  | .reading _ =>
    (s.client.stepCall ok).map fun client =>
      if ok then { s.readAll read with client := client } else { s with client := client }
  | .sending (some info, batch) serials ahead failed =>
    match s.client.client.sendWorker w.dumps ok info.url "request"
        (evaluatePacket batch s.files) with
    | .sent e => some ((s.send batch e).setCall (.grouping serials ahead failed))
    | .raised => some (s.setCall .raised)
    | .unserialised | .refused =>
      some (s.setCall (.grouping serials ahead (failed ++ batch)))
  | _ => (s.client.stepCall ok).map fun client => { s with client := client }

/-- The threads that an emission starts. -/
def passingOf : Handled (Json μ) → List (Passing μ)
  | .batch serials event contents => [⟨.start serials, event, contents⟩]
  | .ignored | .raised | .direct _ => []

/-- `handleRequest` of the device. -/
def handleRequest (s : Evaluator μ ν) (event contents : Value (Json μ)) (paths : List ℕ) :
    Option (Evaluator μ ν) :=
  match queueFiles event contents with
  | none => some s
  | some files => (s.host.request paths files).map fun host => { s with host := host }

/-- The loop of a batch has gone on. -/
def setLoop (s : Evaluator μ ν) (k : ℕ) (p : Passing μ) (loop : LoopState (Json μ)) :
    Evaluator μ ν :=
  { s with passing := s.passing.set k { p with loop := loop } }

variable [Zero μ] [DecidableEq μ]

/-- One step. -/
def step (w : Wiring μ) (search : δ → List (Signal ν)) (s : Evaluator μ ν) :
    EvaluatorInput ν δ → Option (Evaluator μ ν)
  | .evaluate paths =>
    if (s.evaluations.flatten ++ paths |>.map Prod.fst).Nodup then
      (s.client.step (.evaluate paths)).map fun client =>
        { s with
          client := client
          evaluations := s.evaluations ++ [paths] }
    else none
  | .run ok read => s.stepCall w ok read
  | .arrive k =>
    s.emitted[k]?.map fun e =>
      { s with
        emitted := s.emitted.eraseIdx k
        passing := s.passing ++ passingOf (onEmission w.loads w.clientId e) }
  | .next k =>
    s.passing[k]?.bind fun p => (p.loop.step 1 .next).map fun loop => s.setLoop k p loop
  | .thread k j paths =>
    s.passing[k]?.bind fun p => (p.loop.step 1 (.read j)).bind fun loop =>
      match p.loop.row with
      | some (.str x) =>
        if x = w.serial then (s.setLoop k p loop).handleRequest p.event p.contents paths
        else some (s.setLoop k p loop)
      | _ => some (s.setLoop k p loop)
  | .device i =>
    match i with
    -- requests come from the threads
    | .request .. => none
    | _ => (s.host.step search i).map fun host => { s with host := host }
  | .report k =>
    s.host.handed[k]?.map fun event => { s with client := s.client.addResult w.serial event }
  | .results serial value =>
    if serial = w.serial then none
    else some { s with client := s.client.addResult serial value }
  | .handleReservationEnd serial =>
    (s.client.step (.handleReservationEnd serial)).map fun client => { s with client := client }
  | .handleFailure serial =>
    (s.client.step (.handleFailure serial)).map fun client => { s with client := client }

/-- A client with its device as a machine. -/
def machine (w : Wiring μ) (search : δ → List (Signal ν)) :
    Machine (Evaluator μ ν) (EvaluatorInput ν δ) :=
  ⟨step w search⟩

/-! ### Requests, from the client to the device -/

/-- **An emission asks for its files**, whichever threads it starts. -/
theorem queueFiles_of_arrive {w : Wiring μ} {batch : List String} {files : Files} {e : Emission}
    (htext : w.dumps (evaluatePacket batch files) = some e.text) :
    ∀ p ∈ passingOf (onEmission w.loads w.clientId e),
      queueFiles p.event p.contents = some files := by
  have hreceived : received w.loads e.text = .packet (some (.list (batch.map .str)))
      (some (.other (.str "evaluate")))
      (some (.other (.object [("files", filesJson files)]))) := by
    rw [received, w.loads_dumps _ _ htext]
    rfl
  have hevent : present Json.truthy (some (.other (.str "evaluate" : Json μ))) =
      some (.other (.str "evaluate")) := rfl
  have hcontents : present Json.truthy
      (some (.other (.object [("files", (filesJson files : Json μ))]))) =
        some (.other (.object [("files", filesJson files)])) := rfl
  intro p hp
  rw [onEmission] at hp
  split at hp
  · rw [hreceived, handle, hevent, hcontents] at hp
    cases hserials : present Json.truthy (some (.list (batch.map (.str : String → Json μ)))) with
    | none =>
      rw [hserials] at hp
      cases hp
    | some serials =>
      obtain ⟨hsome, -⟩ := Option.filter_eq_some_iff.mp hserials
      obtain rfl := Option.some.inj hsome
      rw [hserials] at hp
      obtain rfl := List.mem_singleton.mp hp
      exact filesOf_filesJson files
  · cases hp

end Evaluator

/-! ### The call of `evaluate` -/

namespace EvaluateCall

variable {ν : Type*}

/-- The paths that the call has still to put into `uuid_map`. -/
def paths : EvaluateCall ν → Option (List (String × String))
  | .clearing paths | .emptying paths => some paths
  | .idle | .filling | .assigning _ | .listing | .reading _ | .grouping .. | .sending ..
  | .entering | .waiting | .returned _ | .raised => none

end EvaluateCall

namespace PulseCountClient

variable {ν : Type*} {s t : PulseCountClient ν}

/-- Where the call has returned, it has returned what the dictionaries say. -/
def Returns (s : PulseCountClient ν) : EvaluateCall ν → Prop
  | .returned values => values = s.values
  | .idle | .clearing _ | .emptying _ | .filling | .assigning _ | .listing | .reading _
  | .grouping .. | .sending .. | .entering | .waiting | .raised => True

/-- A step of the call that keeps the two dictionaries. -/
structure Goes (s t : PulseCountClient ν) : Prop where
  uuidMap : t.uuidMap = s.uuidMap
  results : t.results = s.results
  paths : t.call.paths = none
  returns : s.Returns t.call

theorem goes_stepGroup {serials : List String} {group : Option Group} {failed : List String} :
    s.Goes { s with call := s.stepGroup serials group failed } := by
  have hcall : (s.stepGroup serials group failed).paths = none ∧
      s.Returns (s.stepGroup serials group failed) := by
    rw [stepGroup.eq_def]
    split
    · exact ⟨rfl, trivial⟩
    · exact ⟨rfl, trivial⟩
    · exact ⟨rfl, trivial⟩
    · split
      · exact ⟨rfl, trivial⟩
      · exact ⟨rfl, trivial⟩
      · exact ⟨rfl, trivial⟩
  exact ⟨rfl, rfl, hcall.1, hcall.2⟩

/-- **What the call does to the dictionaries**: it clears one, fills the other, and
then leaves both alone. -/
theorem stepCall_cases {ok : Bool} (h : s.stepCall ok = some t) :
    (∃ paths, s.call = .clearing paths ∧ t = { s with
      results := ∅
      call := .emptying paths }) ∨
    (∃ paths, s.call = .emptying paths ∧ t.uuidMap = paths.foldl Table.put s.uuidMap ∧
      t.results = s.results ∧ t.call = .filling) ∨ s.Goes t := by
  rw [stepCall.eq_def] at h
  split at h
  · cases h
  · cases h
  · cases h
  · exact Or.inl ⟨_, ‹_›, (Option.some.inj h).symm⟩
  · obtain rfl := Option.some.inj h
    exact Or.inr (Or.inl ⟨_, ‹_›, rfl, rfl, rfl⟩)
  · obtain rfl := Option.some.inj h
    exact Or.inr (Or.inr ⟨rfl, rfl, rfl, trivial⟩)
  · obtain rfl := Option.some.inj h
    exact Or.inr (Or.inr ⟨rfl, rfl, rfl, trivial⟩)
  · obtain rfl := Option.some.inj h
    exact Or.inr (Or.inr ⟨rfl, rfl, rfl, trivial⟩)
  · obtain rfl := Option.some.inj h
    cases ok with
    | true => exact Or.inr (Or.inr ⟨rfl, rfl, rfl, trivial⟩)
    | false => exact Or.inr (Or.inr ⟨rfl, rfl, rfl, trivial⟩)
  · obtain rfl := Option.some.inj h
    exact Or.inr (Or.inr goes_stepGroup)
  · obtain rfl := Option.some.inj h
    exact Or.inr (Or.inr ⟨rfl, rfl, rfl, trivial⟩)
  · split at h
    · split at h
      · obtain rfl := Option.some.inj h
        exact Or.inr (Or.inr ⟨rfl, rfl, rfl, trivial⟩)
      · obtain rfl := Option.some.inj h
        exact Or.inr (Or.inr ⟨rfl, rfl, rfl, trivial⟩)
    · obtain rfl := Option.some.inj h
      exact Or.inr (Or.inr ⟨rfl, rfl, rfl, trivial⟩)
  · obtain rfl := Option.some.inj h
    by_cases hnone : s.remainingSerials = []
    · rw [if_pos hnone]
      exact Or.inr (Or.inr ⟨rfl, rfl, rfl, rfl⟩)
    · rw [if_neg hnone]
      exact Or.inr (Or.inr ⟨rfl, rfl, rfl, trivial⟩)
  · split at h
    · obtain rfl := Option.some.inj h
      exact Or.inr (Or.inr ⟨rfl, rfl, rfl, rfl⟩)
    · cases h

end PulseCountClient

namespace Evaluator

variable {μ ν δ : Type*}

/-! ### What has been read -/

/-- The text was read, and decoded, under this name. -/
def Read (s : Evaluator μ ν) (name text : String) : Prop :=
  ∃ path bytes, (name, path, bytes) ∈ s.reads ∧ text = Cp437.decode bytes

/-- The names are those of one call. -/
def Whole (s : Evaluator μ ν) (names : List String) : Prop :=
  names = [] ∨ ∃ paths ∈ s.evaluations, paths.map Prod.fst = names

/-- The files are those of one call, as they were read. -/
structure OfCall (s : Evaluator μ ν) (files : Files) : Prop where
  whole : s.Whole files.keys
  read : ∀ r ∈ files, s.Read r.1 r.2

variable {s t : Evaluator μ ν}

theorem Read.mono {name text : String} (h : s.Read name text) (hreads : s.reads ⊆ t.reads) :
    t.Read name text := by
  obtain ⟨path, bytes, hmem, htext⟩ := h
  exact ⟨path, bytes, hreads hmem, htext⟩

theorem Whole.mono {names : List String} (h : s.Whole names)
    (hevaluations : s.evaluations ⊆ t.evaluations) : t.Whole names :=
  h.imp_right fun ⟨paths, hpaths, hnames⟩ => ⟨paths, hevaluations hpaths, hnames⟩

theorem OfCall.mono {files : Files} (h : s.OfCall files)
    (hevaluations : s.evaluations ⊆ t.evaluations) (hreads : s.reads ⊆ t.reads) :
    t.OfCall files :=
  ⟨h.whole.mono hevaluations, fun r hr => (h.read r hr).mono hreads⟩

/-- **The identifiers**: no two are the same, the client's dictionary has those of
one call, and each file was read under the identifier of its path. -/
structure Journal (s : Evaluator μ ν) : Prop where
  nodup : (s.evaluations.flatten.map Prod.fst).Nodup
  called : ∀ paths, s.client.call.paths = some paths →
    s.client.uuidMap = ∅ ∧ paths ∈ s.evaluations
  mapped : s.client.uuidMap = ∅ ∨ s.client.uuidMap.rows ∈ s.evaluations
  read : ∀ r ∈ s.reads, ∃ paths ∈ s.evaluations, (r.1, r.2.1) ∈ paths

theorem journal_start (client : Client) : (start client : Evaluator μ ν).Journal where
  nodup := List.nodup_nil
  called := fun _ h => by cases h
  mapped := Or.inl rfl
  read := fun _ h => absurd h List.not_mem_nil

theorem Journal.frame (hs : s.Journal) (hevaluations : t.evaluations = s.evaluations)
    (hreads : t.reads = s.reads) (huuidMap : t.client.uuidMap = s.client.uuidMap)
    (hpaths : t.client.call.paths = s.client.call.paths ∨ t.client.call.paths = none) :
    t.Journal where
  nodup := by rw [hevaluations]; exact hs.nodup
  called := by
    intro paths hcall
    rw [huuidMap, hevaluations]
    rcases hpaths with hsame | hnone
    · exact hs.called paths (hsame ▸ hcall)
    · rw [hnone] at hcall
      cases hcall
  mapped := by rw [huuidMap, hevaluations]; exact hs.mapped
  read := by rw [hreads, hevaluations]; exact hs.read

/-- A file read under an identifier of the dictionary is that of its path. -/
theorem Journal.path_eq (hs : s.Journal) {uuid path path' : String} {bytes : List UInt8}
    (hmap : (uuid, path) ∈ s.client.uuidMap) (hread : (uuid, path', bytes) ∈ s.reads) :
    path' = path := by
  have hflat : (uuid, path) ∈ s.evaluations.flatten := by
    rcases hs.mapped with hempty | hrows
    · rw [hempty] at hmap
      exact absurd hmap (Table.not_mem_empty _)
    · exact List.mem_flatten.mpr ⟨_, hrows, hmap⟩
  obtain ⟨paths, hpaths, hmem⟩ := hs.read _ hread
  have hflat' : (uuid, path') ∈ s.evaluations.flatten := List.mem_flatten.mpr ⟨paths, hpaths, hmem⟩
  exact congrArg Prod.snd (List.inj_on_of_nodup_map hs.nodup hflat' hflat rfl)

/-- The names of one call, with one identifier of the dictionary, are all of
them. -/
theorem Journal.keys_eq (hs : s.Journal) {names : List String} (hnames : s.Whole names)
    {uuid : String} (huuid : uuid ∈ names) (hmap : uuid ∈ s.client.uuidMap.keys) :
    s.client.uuidMap.keys = names := by
  rcases hnames with rfl | ⟨paths, hpaths, rfl⟩
  · cases huuid
  · obtain ⟨r, hr, rfl⟩ := Table.mem_keys.mp hmap
    obtain ⟨r', hr', heq⟩ := List.mem_map.mp huuid
    rcases hs.mapped with hempty | hrows
    · rw [hempty] at hr
      exact absurd hr (Table.not_mem_empty _)
    · rw [Table.keys, eq_of_nodup_flatten hs.nodup hrows hpaths hr hr' heq.symm]

/-! ### What is on its way -/

/-- **What is on its way** to the device was read by one call. -/
structure Carriage (w : Wiring μ) (s : Evaluator μ ν) : Prop where
  files : s.OfCall s.files
  emitted : ∀ e ∈ s.emitted, ∃ batch files,
    w.dumps (evaluatePacket batch files) = some e.text ∧ s.OfCall files
  passing : ∀ p ∈ s.passing, ∀ files, queueFiles p.event p.contents = some files → s.OfCall files

variable {w : Wiring μ}

theorem carriage_start (client : Client) : (start client : Evaluator μ ν).Carriage w where
  files := ⟨Or.inl rfl, fun _ h => absurd h (Table.not_mem_empty _)⟩
  emitted := fun _ h => absurd h List.not_mem_nil
  passing := fun _ h => absurd h List.not_mem_nil

/-- A step that emits at most the files read last, and passes on only what is on its
way. -/
theorem Carriage.frame (hs : s.Carriage w) (hfiles : t.files = s.files)
    (hemitted : ∀ e ∈ t.emitted, e ∈ s.emitted ∨
      ∃ batch, w.dumps (evaluatePacket batch s.files) = some e.text)
    (hpassing : ∀ p ∈ t.passing, ∀ files, queueFiles p.event p.contents = some files →
      s.OfCall files)
    (hevaluations : s.evaluations ⊆ t.evaluations) (hreads : s.reads ⊆ t.reads) :
    t.Carriage w where
  files := by rw [hfiles]; exact hs.files.mono hevaluations hreads
  emitted := by
    intro e he
    rcases hemitted e he with hold | ⟨batch, htext⟩
    · obtain ⟨batch, files, htext, hcall⟩ := hs.emitted e hold
      exact ⟨batch, files, htext, hcall.mono hevaluations hreads⟩
    · exact ⟨batch, s.files, htext, hs.files.mono hevaluations hreads⟩
  passing := fun p hp files hfiles => (hpassing p hp files hfiles).mono hevaluations hreads

/-- A step that leaves alone what is on its way. -/
theorem Carriage.keep (hs : s.Carriage w) (hfiles : t.files = s.files)
    (hemitted : t.emitted = s.emitted) (hpassing : t.passing = s.passing)
    (hevaluations : s.evaluations ⊆ t.evaluations) (hreads : s.reads ⊆ t.reads) :
    t.Carriage w :=
  hs.frame hfiles (fun _ he => Or.inl (hemitted ▸ he)) (hpassing ▸ hs.passing) hevaluations hreads

/-! ### What comes back -/

/-- The value is a count that answered an upload of the bytes which the call under
way, or the last one, has read from the path. -/
def Counted (s : Evaluator μ ν) (path : String) (value : Option ν) : Prop :=
  ∃ uuid bytes b n, ∃ i : ℕ, (uuid, path) ∈ s.client.uuidMap ∧ (uuid, path, bytes) ∈ s.reads ∧
    b.name = uuid ∧ s.host.history.uploads[i]? = some (b, bytes) ∧
    s.host.history.answers[i]? = some (Answer.pulses n) ∧ value = some n

/-- **What is returned for the device is right**: what has a path is a count of its
bytes, and with one path all paths are there. -/
structure Right (s : Evaluator μ ν) (dict : Table (Option String × Option ν) Prod.fst) :
    Prop where
  counted : ∀ path value, (some path, value) ∈ dict → s.Counted path value
  complete : ∀ path, some path ∈ dict.keys → ∀ r ∈ s.client.uuidMap, some r.2 ∈ dict.keys

theorem Right.mono {dict : Table (Option String × Option ν) Prod.fst} (h : s.Right dict)
    (huuidMap : t.client.uuidMap = s.client.uuidMap) (hreads : s.reads ⊆ t.reads)
    (huploads : s.host.history.uploads <+: t.host.history.uploads)
    (hanswers : s.host.history.answers <+: t.host.history.answers) : t.Right dict where
  counted := by
    intro path value hmem
    obtain ⟨uuid, bytes, b, n, i, hmap, hread, hname, hupload, hanswer, hvalue⟩ :=
      h.counted path value hmem
    exact ⟨uuid, bytes, b, n, i, huuidMap ▸ hmap, hreads hread, hname,
      getElem?_of_prefix huploads hupload, getElem?_of_prefix hanswers hanswer, hvalue⟩
  complete := by
    rw [huuidMap]
    exact h.complete

/-- **What is on its way** back is what the device reports. -/
structure Reported (w : Wiring μ) (s : Evaluator μ ν) : Prop where
  reports : s.host.Reports s.Whole s.Read
  results : ∀ event, (w.serial, event) ∈ s.client.results → event ∈ s.host.handed
  returned : ∀ values, s.client.call = .returned values →
    ∀ dict, (w.serial, dict) ∈ values → s.Right dict

theorem reported_start (client : Client) : (start client : Evaluator μ ν).Reported w where
  reports := Host.reports_start _ _
  results := fun _ h => absurd h (Table.not_mem_empty _)
  returned := fun _ h => by cases h

/-- **The dictionaries say what is right.** -/
theorem right_of_values (hjournal : s.Journal) (hs : s.Reported w)
    {dict : Table (Option String × Option ν) Prod.fst}
    (h : (w.serial, dict) ∈ s.client.values) : s.Right dict := by
  rw [PulseCountClient.values, List.mem_map] at h
  obtain ⟨⟨serial, event⟩, hresult, heq⟩ := h
  obtain ⟨rfl, rfl⟩ := Prod.mk.inj heq
  have hevent : event ∈ s.host.handed := hs.results event hresult
  -- a path in the dictionary stands for an identifier in the event
  have hpath : ∀ path uuid, (s.client.uuidMap.find? uuid).map Prod.snd = some path →
      (uuid, path) ∈ s.client.uuidMap := by
    intro path uuid hfind
    obtain ⟨r, hr, rfl⟩ := Option.map_eq_some_iff.mp hfind
    obtain ⟨hmem, rfl⟩ := Table.find?_eq_some.mp hr
    exact hmem
  refine ⟨fun path value hmem => ?_, fun path hmem r hr => ?_⟩
  · rcases Table.mem_foldl_put hmem with hempty | ⟨q, hq, heq⟩
    · exact absurd hempty (Table.not_mem_empty _)
    obtain ⟨hfind, rfl⟩ := Prod.mk.inj heq
    have hmap := hpath path q.1 hfind.symm
    obtain ⟨b, bytes, n, i, hname, ⟨text, htext, hencode⟩, hupload, hanswer, hvalue⟩ :=
      hs.reports.answered q (Or.inr ⟨event, hevent, hq⟩)
    obtain ⟨path', bytes', hread, rfl⟩ := hs.reports.asked.submitted _ htext
    rw [Cp437.encode_decode] at hencode
    obtain rfl := Option.some.inj hencode
    have hread : (q.1, path', bytes') ∈ s.reads := hname ▸ hread
    obtain rfl := hjournal.path_eq hmap hread
    exact ⟨q.1, bytes', b, n, i, hmap, hread, hname, hupload, hanswer, hvalue⟩
  · rcases Table.mem_keys_foldl_put.mp hmem with hempty | ⟨q, hq, hkey⟩
    · cases hempty
    have hmap := hpath path q.1 hkey
    obtain ⟨names, hwhole, hname, hsub⟩ := hs.reports.together.handed event hevent q.1
      (Table.key_mem_keys hq)
    obtain rfl := hjournal.keys_eq hwhole hname (Table.key_mem_keys hmap)
    obtain ⟨q', hq', heq⟩ := Table.mem_keys.mp (hsub (Table.key_mem_keys hr))
    refine Table.mem_keys_foldl_put.mpr (Or.inr ⟨q', hq', ?_⟩)
    show (s.client.uuidMap.find? q'.1).map Prod.snd = some r.2
    rw [Table.find?_eq_some.mpr ⟨hr, heq.symm⟩, Option.map_some]

/-! ### What a step keeps -/

/-- **The invariant** of a client and its device. -/
structure Inv (w : Wiring μ) (s : Evaluator μ ν) : Prop where
  journal : s.Journal
  carriage : s.Carriage w
  reported : s.Reported w

theorem inv_start (client : Client) : (start client : Evaluator μ ν).Inv w where
  journal := journal_start client
  carriage := carriage_start client
  reported := reported_start client

theorem Reported.frame (hs : s.Reported w) (hhost : t.host = s.host)
    (hevaluations : s.evaluations ⊆ t.evaluations) (hreads : s.reads ⊆ t.reads)
    (hresults : ∀ event, (w.serial, event) ∈ t.client.results → event ∈ s.host.handed)
    (hreturned : ∀ values, t.client.call = .returned values →
      ∀ dict, (w.serial, dict) ∈ values → t.Right dict) : t.Reported w where
  reports := by
    rw [hhost]
    exact hs.reports.mono (fun _ h => h.mono hevaluations) fun _ _ h => h.mono hreads
  results := by rw [hhost]; exact hresults
  returned := hreturned

/-- What was returned stays right. -/
theorem Reported.returned_frame (hs : s.Reported w) (hcall : t.client.call = s.client.call)
    (huuidMap : t.client.uuidMap = s.client.uuidMap) (hreads : s.reads ⊆ t.reads)
    (huploads : s.host.history.uploads <+: t.host.history.uploads)
    (hanswers : s.host.history.answers <+: t.host.history.answers) :
    ∀ values, t.client.call = .returned values →
      ∀ dict, (w.serial, dict) ∈ values → t.Right dict := by
  intro values hvalues dict hdict
  exact (hs.returned values (hcall ▸ hvalues) dict hdict).mono huuidMap hreads huploads hanswers

/-! ### The client -/

/-- A step of the call that keeps the dictionaries. -/
theorem inv_goes (hs : s.Inv w) {client : PulseCountClient (Option ν)}
    (hgoes : s.client.Goes client) : Inv w { s with client := client } where
  journal := hs.journal.frame rfl rfl hgoes.uuidMap (Or.inr hgoes.paths)
  carriage := hs.carriage.keep rfl rfl rfl (List.Subset.refl _)
    (List.Subset.refl _)
  reported := by
    refine hs.reported.frame rfl (List.Subset.refl _) (List.Subset.refl _) ?_ ?_
    · show ∀ event, (w.serial, event) ∈ client.results → event ∈ s.host.handed
      rw [hgoes.results]
      exact hs.reported.results
    · intro values hvalues dict hdict
      have hvalues : client.call = .returned values := hvalues
      have hreturns := hgoes.returns
      rw [hvalues] at hreturns
      obtain rfl : values = s.client.values := hreturns
      exact (right_of_values hs.journal hs.reported hdict).mono hgoes.uuidMap
        (List.Subset.refl _) List.prefix_rfl List.prefix_rfl

theorem inv_clear (hs : s.Inv w) {paths : List (String × String)}
    (hcall : s.client.call = .clearing paths) :
    Inv w { s with
      client := { s.client with
        results := ∅
        call := .emptying paths } } where
  journal := hs.journal.frame rfl rfl rfl (Or.inl (by rw [hcall]; rfl))
  carriage := hs.carriage.keep rfl rfl rfl (List.Subset.refl _)
    (List.Subset.refl _)
  reported := hs.reported.frame rfl (List.Subset.refl _) (List.Subset.refl _)
    (fun _ h => absurd h (Table.not_mem_empty _)) fun _ h => by cases h

/-- The dictionary of a call is filled. -/
theorem inv_map (hs : s.Inv w) {paths : List (String × String)}
    (hcall : s.client.call = .emptying paths) {client : PulseCountClient (Option ν)}
    (huuidMap : client.uuidMap = paths.foldl Table.put s.client.uuidMap)
    (hresults : client.results = s.client.results) (hcall' : client.call = .filling) :
    Inv w { s with client := client } := by
  obtain ⟨hempty, hpaths⟩ := hs.journal.called paths (by rw [hcall]; rfl)
  have hrows : client.uuidMap.rows = paths := by
    have hnodup : ((∅ : Files).rows ++ paths |>.map Prod.fst).Nodup :=
      hs.journal.nodup.sublist ((List.sublist_flatten_of_mem hpaths).map _)
    rw [huuidMap, hempty, Table.rows_foldl_put hnodup]
    rfl
  refine ⟨?_, ?_, ?_⟩
  · refine ⟨hs.journal.nodup, fun paths' h => ?_, Or.inr ?_, hs.journal.read⟩
    · have h : client.call.paths = some paths' := h
      rw [hcall'] at h
      cases h
    · show client.uuidMap.rows ∈ s.evaluations
      rw [hrows]
      exact hpaths
  · exact hs.carriage.keep rfl rfl rfl (List.Subset.refl _) (List.Subset.refl _)
  · refine hs.reported.frame rfl (List.Subset.refl _) (List.Subset.refl _) ?_ fun values h => ?_
    · show ∀ event, (w.serial, event) ∈ client.results → event ∈ s.host.handed
      rw [hresults]
      exact hs.reported.results
    · have h : client.call = .returned values := h
      rw [hcall'] at h
      cases h

/-- The files are read. -/
theorem inv_readAll (hs : s.Inv w) (read : String → List UInt8) : (s.readAll read).Inv w := by
  have hreads : s.reads ⊆ (s.readAll read).reads := List.subset_append_left _ _
  refine ⟨⟨hs.journal.nodup, hs.journal.called, hs.journal.mapped, fun r hr => ?_⟩, ?_, ?_⟩
  · rcases List.mem_append.mp hr with hold | hnew
    · exact hs.journal.read r hold
    · obtain ⟨q, hq, rfl⟩ := List.mem_map.mp hnew
      rcases hs.journal.mapped with hempty | hrows
      · rw [hempty] at hq
        cases hq
      · exact ⟨_, hrows, hq⟩
  · refine ⟨⟨?_, fun r hr => ?_⟩, fun e he => ?_, fun p hp files hfiles => ?_⟩
    · show (s.readAll read).Whole (readFiles s.client.uuidMap read).keys
      rw [keys_readFiles]
      rcases hs.journal.mapped with hempty | hrows
      · exact Or.inl (by rw [hempty]; rfl)
      · exact Or.inr ⟨_, hrows, rfl⟩
    · obtain ⟨q, hq, rfl⟩ := List.mem_map.mp hr
      exact ⟨q.2, read q.1, List.mem_append_right _ (List.mem_map.mpr ⟨q, hq, rfl⟩), rfl⟩
    · obtain ⟨batch, files, htext, hcall⟩ := hs.carriage.emitted e he
      exact ⟨batch, files, htext, hcall.mono (List.Subset.refl _) hreads⟩
    · exact (hs.carriage.passing p hp files hfiles).mono (List.Subset.refl _) hreads
  · exact hs.reported.frame rfl (List.Subset.refl _) hreads hs.reported.results
      (hs.reported.returned_frame rfl rfl hreads List.prefix_rfl List.prefix_rfl)

/-- A batch is sent. -/
theorem inv_send (hs : s.Inv w) {batch batch' : List String} {e : Emission}
    (htext : w.dumps (evaluatePacket batch' s.files) = some e.text) : (s.send batch e).Inv w where
  journal := hs.journal.frame rfl rfl rfl (Or.inl rfl)
  carriage := by
    refine hs.carriage.frame rfl (fun e' he' => ?_) hs.carriage.passing (List.Subset.refl _)
      (List.Subset.refl _)
    rcases List.mem_append.mp he' with hold | hnew
    · exact Or.inl hold
    · obtain rfl := List.mem_singleton.mp hnew
      exact Or.inr ⟨batch', htext⟩
  reported := hs.reported.frame rfl (List.Subset.refl _) (List.Subset.refl _) hs.reported.results
    (hs.reported.returned_frame rfl rfl (List.Subset.refl _) List.prefix_rfl List.prefix_rfl)

theorem text_of_sendWorker {c : Client} {dumps : Json μ → Option String} {emits : Bool}
    {url event : String} {data : Json μ} {e : Emission}
    (h : c.sendWorker dumps emits url event data = .sent e) : dumps data = some e.text := by
  rw [Client.sendWorker] at h
  split at h
  · cases h
  · rename_i text htext
    split at h
    · cases h
    · cases h
    · split at h
      · obtain rfl := SendOutcome.sent.inj h
        exact htext
      · cases h

theorem inv_setCall (hs : s.Inv w) {call : EvaluateCall (Option ν)} (hpaths : call.paths = none)
    (hreturns : s.client.Returns call) : (s.setCall call).Inv w :=
  inv_goes hs ⟨rfl, rfl, hpaths, hreturns⟩

theorem inv_stepCall (hs : s.Inv w) {ok : Bool} {read : String → List UInt8}
    (h : s.stepCall w ok read = some t) : t.Inv w := by
  rw [stepCall.eq_def] at h
  split at h
  · rename_i serials hcall
    obtain ⟨client, hclient, rfl⟩ := Option.map_eq_some_iff.mp h
    rcases PulseCountClient.stepCall_cases hclient with ⟨paths, hc, -⟩ | ⟨paths, hc, -⟩ | hgoes
    · rw [hcall] at hc
      cases hc
    · rw [hcall] at hc
      cases hc
    · split
      · exact inv_goes (inv_readAll hs read) hgoes
      · exact inv_goes hs hgoes
  · rename_i info batch serials ahead failed hcall
    split at h
    · obtain rfl := Option.some.inj h
      exact inv_setCall (inv_send hs (text_of_sendWorker ‹_›)) rfl trivial
    · obtain rfl := Option.some.inj h
      exact inv_setCall hs rfl trivial
    · obtain rfl := Option.some.inj h
      exact inv_setCall hs rfl trivial
    · obtain rfl := Option.some.inj h
      exact inv_setCall hs rfl trivial
  · obtain ⟨client, hclient, rfl⟩ := Option.map_eq_some_iff.mp h
    rcases PulseCountClient.stepCall_cases hclient with
      ⟨paths, hcall, rfl⟩ | ⟨paths, hcall, huuidMap, hresults, hcall'⟩ | hgoes
    · exact inv_clear hs hcall
    · exact inv_map hs hcall huuidMap hresults hcall'
    · exact inv_goes hs hgoes

/-- A report arrives: its event is one of the device's, if it is from the device. -/
theorem inv_addResult (hs : s.Inv w) {serial : String} {event : Results ν}
    (hevent : serial = w.serial → event ∈ s.host.handed) :
    Inv w { s with client := s.client.addResult serial event } where
  journal := hs.journal.frame rfl rfl rfl (Or.inl rfl)
  carriage := hs.carriage.keep rfl rfl rfl (List.Subset.refl _)
    (List.Subset.refl _)
  reported := by
    refine hs.reported.frame rfl (List.Subset.refl _) (List.Subset.refl _) (fun event' hmem => ?_)
      (hs.reported.returned_frame rfl rfl (List.Subset.refl _) List.prefix_rfl List.prefix_rfl)
    rcases Table.mem_put.mp hmem with heq | ⟨hold, -⟩
    · obtain ⟨hserial, rfl⟩ := Prod.mk.inj heq
      exact hevent hserial.symm
    · exact hs.reported.results event' hold

/-- A serial is untracked. -/
theorem inv_removeSerial (hs : s.Inv w) (serial : String)
    (h : some { s with
      client := { s.client with
        client := s.client.client.removeSerial serial } } = some t) : t.Inv w := by
  obtain rfl := Option.some.inj h
  refine ⟨hs.journal.frame rfl rfl rfl (Or.inl rfl), ?_, ?_⟩
  · exact hs.carriage.keep rfl rfl rfl (List.Subset.refl _) (List.Subset.refl _)
  · exact hs.reported.frame rfl (List.Subset.refl _) (List.Subset.refl _) hs.reported.results
      (hs.reported.returned_frame rfl rfl (List.Subset.refl _) List.prefix_rfl List.prefix_rfl)

/-- `evaluate` is called. -/
theorem inv_evaluate (hs : s.Inv w) {paths : List (String × String)}
    (hnodup : (s.evaluations.flatten ++ paths |>.map Prod.fst).Nodup) :
    Inv w { s with
      client := { s.client with
        uuidMap := ∅
        call := .clearing paths }
      evaluations := s.evaluations ++ [paths] } := by
  have hevaluations : s.evaluations ⊆ s.evaluations ++ [paths] := List.subset_append_left _ _
  refine ⟨⟨?_, fun paths' h => ?_, Or.inl rfl, fun r hr => ?_⟩, ?_, ?_⟩
  · show ((s.evaluations ++ [paths]).flatten.map Prod.fst).Nodup
    rw [List.flatten_append, List.flatten_singleton]
    exact hnodup
  · obtain rfl := Option.some.inj h
    exact ⟨rfl, List.mem_append_right _ List.mem_cons_self⟩
  · obtain ⟨paths', hpaths', hmem⟩ := hs.journal.read r hr
    exact ⟨paths', hevaluations hpaths', hmem⟩
  · exact hs.carriage.keep rfl rfl rfl hevaluations (List.Subset.refl _)
  · exact hs.reported.frame rfl hevaluations (List.Subset.refl _) hs.reported.results
      fun _ h => by cases h

/-! ### The worker and the device -/

theorem inv_setLoop (hs : s.Inv w) {k : ℕ} {p : Passing μ} (hk : s.passing[k]? = some p)
    (loop : LoopState (Json μ)) : (s.setLoop k p loop).Inv w where
  journal := hs.journal.frame rfl rfl rfl (Or.inl rfl)
  carriage := by
    refine hs.carriage.frame rfl (fun _ => Or.inl) (fun p' hp' files hfiles => ?_)
      (List.Subset.refl _) (List.Subset.refl _)
    rcases List.mem_or_eq_of_mem_set hp' with hold | rfl
    · exact hs.carriage.passing p' hold files hfiles
    · exact hs.carriage.passing p (List.mem_of_getElem? hk) files hfiles
  reported := hs.reported.frame rfl (List.Subset.refl _) (List.Subset.refl _) hs.reported.results
    (hs.reported.returned_frame rfl rfl (List.Subset.refl _) List.prefix_rfl List.prefix_rfl)

variable {search : δ → List (Signal ν)}

/-- The device goes on, or is asked for the files of a call. -/
theorem inv_host (hs : s.Inv w) {i : HostInput δ} {host : Host ν}
    (honce : Host.AnswersOnce search s.host i)
    (hrequest : ∀ paths files, i = .request paths files → s.OfCall files)
    (h : s.host.step search i = some host) : Inv w { s with host := host } := by
  obtain ⟨hanswers, l, huploads, -⟩ := Host.history_step h
  refine ⟨hs.journal.frame rfl rfl rfl (Or.inl rfl), ?_, ?_, ?_, ?_⟩
  · exact hs.carriage.keep rfl rfl rfl (List.Subset.refl _) (List.Subset.refl _)
  · exact Host.reports_step hs.reported.reports honce
      (fun paths files hi => ⟨(hrequest paths files hi).whole, (hrequest paths files hi).read⟩) h
  · exact fun event hevent => Host.handed_subset_step h (hs.reported.results event hevent)
  · exact hs.reported.returned_frame rfl rfl (List.Subset.refl _) ⟨l, huploads.symm⟩ hanswers

theorem inv_handleRequest (hs : s.Inv w) {event contents : Value (Json μ)} {paths : List ℕ}
    (hcall : ∀ files, queueFiles event contents = some files → s.OfCall files)
    (h : s.handleRequest event contents paths = some t) : t.Inv w := by
  rw [handleRequest] at h
  split at h
  · obtain rfl := Option.some.inj h
    exact hs
  · rename_i files hfiles
    obtain ⟨host, hhost, rfl⟩ := Option.map_eq_some_iff.mp h
    -- it is all one what the device reads from its port
    have hstep : s.host.step (fun _ : Unit => []) (.request paths files) = some host := hhost
    refine inv_host hs ?_ (fun paths' files' hi => ?_) hstep
    · trivial
    · obtain ⟨-, rfl⟩ := HostInput.request.inj hi
      exact hcall files hfiles

variable [Zero μ] [DecidableEq μ]

/-- An emission arrives. -/
theorem inv_arrive (hs : s.Inv w) {k : ℕ} {e : Emission} (hk : s.emitted[k]? = some e) :
    Inv w { s with
      emitted := s.emitted.eraseIdx k
      passing := s.passing ++ passingOf (onEmission w.loads w.clientId e) } where
  journal := hs.journal.frame rfl rfl rfl (Or.inl rfl)
  carriage := by
    refine hs.carriage.frame rfl (fun e' he' => Or.inl (List.mem_of_mem_eraseIdx he'))
      (fun p hp files hfiles => ?_) (List.Subset.refl _) (List.Subset.refl _)
    rcases List.mem_append.mp hp with hold | hnew
    · exact hs.carriage.passing p hold files hfiles
    · obtain ⟨batch, files', htext, hcall⟩ := hs.carriage.emitted e (List.mem_of_getElem? hk)
      have hfiles' := queueFiles_of_arrive htext p hnew
      obtain rfl := Option.some.inj (hfiles.symm.trans hfiles')
      exact hcall
  reported := hs.reported.frame rfl (List.Subset.refl _) (List.Subset.refl _) hs.reported.results
    (hs.reported.returned_frame rfl rfl (List.Subset.refl _) List.prefix_rfl List.prefix_rfl)

/-- The device answers each complete upload at most once. -/
def AnswersOnce (search : δ → List (Signal ν)) (s : Evaluator μ ν) : EvaluatorInput ν δ → Prop
  | .device i => Host.AnswersOnce search s.host i
  | .evaluate _ | .run .. | .arrive _ | .next _ | .thread .. | .report _ | .results ..
  | .handleReservationEnd _ | .handleFailure _ => True

theorem inv_step (hs : s.Inv w) {i : EvaluatorInput ν δ} (honce : AnswersOnce search s i)
    (h : s.step w search i = some t) : t.Inv w := by
  cases i with
  | evaluate paths =>
    simp only [step] at h
    split at h
    · rename_i hnodup
      obtain ⟨client, hclient, rfl⟩ := Option.map_eq_some_iff.mp h
      have hset : client = { s.client with
          uuidMap := ∅
          call := .clearing paths } := by
        simp only [PulseCountClient.step] at hclient
        split at hclient
        case h_4 => cases hclient
        all_goals exact (Option.some.inj hclient).symm
      exact hset ▸ inv_evaluate hs hnodup
    · cases h
  | run ok read => exact inv_stepCall hs h
  | arrive k =>
    obtain ⟨e, hk, rfl⟩ := Option.map_eq_some_iff.mp h
    exact inv_arrive hs hk
  | next k =>
    obtain ⟨p, hk, h⟩ := Option.bind_eq_some_iff.mp h
    obtain ⟨loop, hloop, rfl⟩ := Option.map_eq_some_iff.mp h
    exact inv_setLoop hs hk loop
  | thread k j paths =>
    obtain ⟨p, hk, h⟩ := Option.bind_eq_some_iff.mp h
    obtain ⟨loop, hloop, h⟩ := Option.bind_eq_some_iff.mp h
    have hset := inv_setLoop hs hk loop
    split at h
    · split at h
      · -- the thread has found the serial of the device
        refine inv_handleRequest hset (fun files hfiles => ?_) h
        exact (hs.carriage.passing p (List.mem_of_getElem? hk) files hfiles).mono
          (List.Subset.refl _) (List.Subset.refl _)
      · obtain rfl := Option.some.inj h
        exact hset
    · obtain rfl := Option.some.inj h
      exact hset
  | device i =>
    simp only [step] at h
    split at h
    · cases h
    · rename_i hnot
      obtain ⟨host, hhost, rfl⟩ := Option.map_eq_some_iff.mp h
      refine inv_host hs honce (fun paths files hi => ?_) hhost
      exact absurd hi (hnot paths files)
  | report k =>
    obtain ⟨event, hk, rfl⟩ := Option.map_eq_some_iff.mp h
    exact inv_addResult hs fun _ => List.mem_of_getElem? hk
  | results serial value =>
    simp only [step] at h
    split at h
    · cases h
    · rename_i hne
      obtain rfl := Option.some.inj h
      exact inv_addResult hs fun heq => absurd heq hne
  | handleReservationEnd serial => exact inv_removeSerial hs serial h
  | handleFailure serial => exact inv_removeSerial hs serial h

/-! ### The parts -/

omit [Zero μ] [DecidableEq μ] in
/-- Where the request can be serialised, the call goes on as that of a client by
itself. -/
theorem client_of_stepCall {ok : Bool} {read : String → List UInt8}
    (hdumps : ∀ batch files, (w.dumps (evaluatePacket batch files)).isSome)
    (h : s.stepCall w ok read = some t) : s.client.stepCall ok = some t.client := by
  rw [stepCall.eq_def] at h
  split at h
  · obtain ⟨client, hclient, rfl⟩ := Option.map_eq_some_iff.mp h
    rw [hclient]
    split
    · rfl
    · rfl
  · rename_i info batch serials ahead failed hcall
    obtain ⟨text, htext⟩ := Option.isSome_iff_exists.mp (hdumps batch s.files)
    rw [PulseCountClient.stepCall.eq_def, hcall]
    rw [Client.sendWorker, htext] at h
    have hsocket : s.client.hasSocket info.url =
        ((s.client.client.workerSockets.find? info.url).map Prod.snd).getD false := by
      rw [PulseCountClient.hasSocket]
      cases s.client.client.workerSockets.find? info.url with
      | none => rfl
      | some p => rfl
    simp only [hsocket]
    cases hfind : s.client.client.workerSockets.find? info.url with
    | none =>
      simp only [hfind] at h
      exact congrArg (Option.map client) h
    | some p =>
      obtain ⟨url, socket⟩ := p
      simp only [hfind] at h
      cases socket with
      | false => exact congrArg (Option.map client) h
      | true =>
        cases ok with
        | false => exact congrArg (Option.map client) h
        | true => exact congrArg (Option.map client) h
  · obtain ⟨client, hclient, rfl⟩ := Option.map_eq_some_iff.mp h
    exact hclient

/-- **A run of both is a run of each**: a step is one of the client by itself, or
leaves it alone, and one of the device by itself, or leaves that alone. -/
theorem parts_step (hdumps : ∀ batch files, (w.dumps (evaluatePacket batch files)).isSome)
    {i : EvaluatorInput ν δ} (h : s.step w search i = some t) :
    (t.client = s.client ∨ ∃ j, s.client.step j = some t.client) ∧
      (t.host = s.host ∨ ∃ j, s.host.step search j = some t.host) := by
  cases i with
  | evaluate paths =>
    simp only [step] at h
    split at h
    · obtain ⟨client, hclient, rfl⟩ := Option.map_eq_some_iff.mp h
      exact ⟨Or.inr ⟨_, hclient⟩, Or.inl rfl⟩
    · cases h
  | run ok read =>
    refine ⟨Or.inr ⟨.run ok, client_of_stepCall hdumps h⟩, Or.inl ?_⟩
    simp only [step, stepCall] at h
    split at h
    · obtain ⟨client, -, rfl⟩ := Option.map_eq_some_iff.mp h
      split
      · rfl
      · rfl
    · split at h
      all_goals
        obtain rfl := Option.some.inj h
        rfl
    · obtain ⟨client, -, rfl⟩ := Option.map_eq_some_iff.mp h
      rfl
  | arrive k =>
    obtain ⟨e, -, rfl⟩ := Option.map_eq_some_iff.mp h
    exact ⟨Or.inl rfl, Or.inl rfl⟩
  | next k =>
    obtain ⟨p, -, h⟩ := Option.bind_eq_some_iff.mp h
    obtain ⟨loop, -, rfl⟩ := Option.map_eq_some_iff.mp h
    exact ⟨Or.inl rfl, Or.inl rfl⟩
  | thread k j paths =>
    obtain ⟨p, -, h⟩ := Option.bind_eq_some_iff.mp h
    obtain ⟨loop, -, h⟩ := Option.bind_eq_some_iff.mp h
    split at h
    · split at h
      · rw [handleRequest] at h
        split at h
        · obtain rfl := Option.some.inj h
          exact ⟨Or.inl rfl, Or.inl rfl⟩
        · rename_i files hfiles
          obtain ⟨host, hhost, rfl⟩ := Option.map_eq_some_iff.mp h
          exact ⟨Or.inl rfl, Or.inr ⟨.request paths files, hhost⟩⟩
      · obtain rfl := Option.some.inj h
        exact ⟨Or.inl rfl, Or.inl rfl⟩
    · obtain rfl := Option.some.inj h
      exact ⟨Or.inl rfl, Or.inl rfl⟩
  | device i =>
    simp only [step] at h
    split at h
    · cases h
    · obtain ⟨host, hhost, rfl⟩ := Option.map_eq_some_iff.mp h
      exact ⟨Or.inl rfl, Or.inr ⟨_, hhost⟩⟩
  | report k =>
    obtain ⟨event, -, rfl⟩ := Option.map_eq_some_iff.mp h
    exact ⟨Or.inr ⟨.results w.serial event, rfl⟩, Or.inl rfl⟩
  | results serial value =>
    simp only [step] at h
    split at h
    · cases h
    · obtain rfl := Option.some.inj h
      exact ⟨Or.inr ⟨.results serial value, rfl⟩, Or.inl rfl⟩
  | handleReservationEnd serial =>
    obtain rfl := Option.some.inj h
    exact ⟨Or.inr ⟨.handleReservationEnd serial, rfl⟩, Or.inl rfl⟩
  | handleFailure serial =>
    obtain rfl := Option.some.inj h
    exact ⟨Or.inr ⟨.handleFailure serial, rfl⟩, Or.inl rfl⟩

/-! ### What is returned -/

instance (search : δ → List (Signal ν)) (s : Evaluator μ ν) :
    ∀ i : EvaluatorInput ν δ, Decidable (AnswersOnce search s i)
  | .device i => inferInstanceAs (Decidable (Host.AnswersOnce search s.host i))
  | .evaluate _ | .run .. | .arrive _ | .next _ | .thread .. | .report _ | .results ..
  | .handleReservationEnd _ | .handleFailure _ => isTrue trivial

end Evaluator

end UsbipIce
