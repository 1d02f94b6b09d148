import UsbipIce.Lib.Machine
import UsbipIce.Lib.Pool
import UsbipIce.Utils.Web

/-!
# Logs that are sent to control

A worker's `RemoteLogger` keeps what is logged in a backlog. A thread of its own
takes the whole backlog every so often, sends it to `/log` of control, and logs a
failure, locally, where the answer is not 200 or does not come. It does not send
anything again.

At the other end `/log` is served by a thread for each request, which logs row by
row. A request whose answer has not come in time may be served all the same, later,
and beside the next one.

Still nothing is logged twice, and nothing is lost but with a failure
(`UsbipIce.RemoteLogger.accounted`): of each batch control logs the records in their
order, all of them unless a failure is logged for the batch; and as long as no
failure is logged, what control has logged is what the worker has logged, in its
order, up to what is still on its way.
-/

namespace UsbipIce

open Lib Utils

variable {ν : Type*}

/-! ### `/log` of control -/

/-- A line of the log of control: the level, the part in brackets, and the
message. -/
structure LogLine (ν : Type*) where
  level : Json ν
  bracket : String
  msg : Json ν

/-- What a round of the loop of `log` does about a row. -/
inductive LogRound (ν : Type*) where
  | skips
  | logs (level msg : Json ν)
  | raises

/-- `base_logger.log` takes integers for a level. A string of two characters and a
dictionary of two keys have a length of 2, too, but the one has no level and the
other no key `0`. -/
def logRound (isInt : ν → Bool) : Json ν → LogRound ν
  | .array [level, msg] =>
    if Builtin.isinstance isInt level .int then .logs level msg else .raises
  | .array _ => .skips
  | .str s => if s.length = 2 then .raises else .skips
  | .object fields => if fields.length = 2 then .raises else .skips
  | .null | .bool _ | .number _ => .raises

/-- `f"[{name}@{request.remote_addr[0]}] …"`: the first character of the address. -/
def bracket (name : String) (remoteAddr0 : Char) : String :=
  "[" ++ name ++ "@" ++ remoteAddr0.toString ++ "]"

/-- The parameters of `log`. -/
def logParameters : List (String × Option Builtin) := [("name", some .str), ("logs", some .list)]

/-- The arguments with which `log` is called for a body, if it is called. -/
def logCall (isInt : ν → Bool) (body : Json ν) : Option (String × List (Json ν)) :=
  match (handlerWrapper (Builtin.isinstance isInt) (logParameters.map parameter)
    (fun _ => some (.bool true)) ⟨"application/json", some body⟩).calls with
  | [[.str name, .array logs]] => some (name, logs)
  | _ => none

/-! ### `RemoteLogger` -/

namespace RemoteLogger

/-- An element of `_backlog`: the level and the message, unless JSON has nothing
for it. -/
structure Record (ν : Type*) where
  level : ν
  msg : Option (Json ν)

/-- A record, as JSON. -/
def Record.row (r : Record ν) : Option (Json ν) := r.msg.map fun m => .array [.number r.level, m]

/-- The body of a request, unless `json.dumps` raises. -/
def body (name : String) (logs : List (Record ν)) : Option (Json ν) :=
  (logs.mapM Record.row).map fun rows => .object [("logs", .array rows), ("name", .str name)]

/-- Where a request to `/log` is. -/
inductive Stage (ν : Type*) where
  /-- It could not be made. -/
  | unsent
  | travelling (body : Json ν)
  /-- These rows are left to log. -/
  | handling (name : String) (rows : List (Json ν))
  | answered (status : ℕ)

/-- What `_send` has taken from the backlog at once. -/
structure Batch (ν : Type*) where
  records : List (Record ν)
  stage : Stage ν

end RemoteLogger

open RemoteLogger

/-- The logger of a worker, and what control has of it. -/
structure RemoteLogger (ν : Type*) where
  backlog : List (Record ν)
  /-- The batch whose answer `_send` waits for. -/
  sending : Option ℕ
  batches : List (Batch ν)
  /-- The batches after which a failure has been logged. -/
  failed : List ℕ
  /-- What control has logged, and of which batch. -/
  lines : List (ℕ × LogLine ν)
  /-- All that has been logged. -/
  logged : List (Record ν)

namespace RemoteLogger

/-- What happens next. -/
inductive Input (ν : Type*) where
  /-- `log` is called. -/
  | log (r : Record ν)
  /-- `_send` has slept. -/
  | wake
  /-- A request arrives. -/
  | arrive (b : ℕ)
  /-- The thread that serves a request does a round. -/
  | round (b : ℕ)
  /-- It has come to the end. -/
  | finish (b : ℕ)
  /-- The answer arrives. -/
  | answer
  /-- `requests.get` raises: there is no answer, or none in time. -/
  | raise

/-- Nothing has been logged. -/
def start : RemoteLogger ν := ⟨[], none, [], [], [], []⟩

/-- The stage of a batch is another one. -/
def setStage (s : RemoteLogger ν) (b : ℕ) (batch : Batch ν) (stage : Stage ν) : RemoteLogger ν :=
  { s with batches := s.batches.set b { batch with stage := stage } }

/-- `_send` takes the backlog, and makes a request of it. -/
def takeBacklog (s : RemoteLogger ν) (name : String) : RemoteLogger ν :=
  { s with
    backlog := []
    sending := some s.batches.length
    batches := s.batches ++ [⟨s.backlog, (body name s.backlog).elim .unsent .travelling⟩] }

/-- `_send` goes on after the request for batch `b`. -/
def goOn (s : RemoteLogger ν) (b : ℕ) (success : Bool) : RemoteLogger ν :=
  { s with
    sending := none
    failed := if success then s.failed else s.failed ++ [b] }

/-- One step of the logger of the worker `name`, of whose address control takes the
character `remoteAddr0`. -/
def step (isInt : ν → Bool) (name : String) (remoteAddr0 : Char) (s : RemoteLogger ν) :
    Input ν → Option (RemoteLogger ν)
  | .log r =>
    -- `Logger.log` raises for a level that is no integer
    if isInt r.level then some { s with
      backlog := s.backlog ++ [r]
      logged := s.logged ++ [r] }
    else some s
  | .wake =>
    match s.sending, s.backlog with
    | some _, _ => none
    | none, [] => some s
    | none, _ :: _ => some (s.takeBacklog name)
  | .arrive b =>
    s.batches[b]?.bind fun batch =>
      match batch.stage with
      | .travelling json =>
        match logCall isInt json with
        | none => some (s.setStage b batch (.answered 400))
        | some (name, rows) => some (s.setStage b batch (.handling name rows))
      | .unsent | .handling .. | .answered _ => none
  | .round b =>
    s.batches[b]?.bind fun batch =>
      match batch.stage with
      | .handling name (row :: rows) =>
        match logRound isInt row with
        | .skips => some (s.setStage b batch (.handling name rows))
        | .raises => some (s.setStage b batch (.answered 500))
        | .logs level msg =>
          some { s.setStage b batch (.handling name rows) with
            lines := s.lines ++ [(b, ⟨level, bracket name remoteAddr0, msg⟩)] }
      | .handling _ [] | .unsent | .travelling _ | .answered _ => none
  | .finish b =>
    s.batches[b]?.bind fun batch =>
      match batch.stage with
      | .handling _ [] => some (s.setStage b batch (.answered 200))
      | .handling _ (_ :: _) | .unsent | .travelling _ | .answered _ => none
  | .answer =>
    s.sending.bind fun b => s.batches[b]?.bind fun batch =>
      match batch.stage with
      | .answered status => some (s.goOn b (status = 200))
      | .unsent | .travelling _ | .handling .. => none
  | .raise => s.sending.map fun b => s.goOn b false

/-- The logger as a machine. -/
def machine (isInt : ν → Bool) (name : String) (remoteAddr0 : Char) :
    Machine (RemoteLogger ν) (Input ν) := ⟨step isInt name remoteAddr0⟩

/-! ### What a step can do -/

variable {isInt : ν → Bool} {name : String} {remoteAddr0 : Char} {s s' : RemoteLogger ν}

/-- How a request gets on, and what is logged of it. -/
inductive Progress (isInt : ν → Bool) (remoteAddr0 : Char) :
    Stage ν → Stage ν → Option (LogLine ν) → Prop
  | refused {json : Json ν} (hcall : logCall isInt json = none) :
      Progress isInt remoteAddr0 (.travelling json) (.answered 400) none
  | called {json : Json ν} {name : String} {rows : List (Json ν)}
      (hcall : logCall isInt json = some (name, rows)) :
      Progress isInt remoteAddr0 (.travelling json) (.handling name rows) none
  | skips {name : String} {row : Json ν} {rows : List (Json ν)}
      (hround : logRound isInt row = .skips) :
      Progress isInt remoteAddr0 (.handling name (row :: rows)) (.handling name rows) none
  | raises {name : String} {row : Json ν} {rows : List (Json ν)}
      (hround : logRound isInt row = .raises) :
      Progress isInt remoteAddr0 (.handling name (row :: rows)) (.answered 500) none
  | logs {name : String} {row level msg : Json ν} {rows : List (Json ν)}
      (hround : logRound isInt row = .logs level msg) :
      Progress isInt remoteAddr0 (.handling name (row :: rows)) (.handling name rows)
        (some ⟨level, bracket name remoteAddr0, msg⟩)
  | finishes {name : String} :
      Progress isInt remoteAddr0 (.handling name []) (.answered 200) none

/-- **The rules**: every way in which the logger goes on. -/
inductive Rule (isInt : ν → Bool) (name : String) (remoteAddr0 : Char) (s : RemoteLogger ν) :
    RemoteLogger ν → Prop
  | idle : Rule isInt name remoteAddr0 s s
  | logs {r : Record ν} (hint : isInt r.level = true) : Rule isInt name remoteAddr0 s { s with
      backlog := s.backlog ++ [r]
      logged := s.logged ++ [r] }
  | takes (hsending : s.sending = none) : Rule isInt name remoteAddr0 s (s.takeBacklog name)
  | progresses {b : ℕ} {batch : Batch ν} {stage : Stage ν} {line : Option (LogLine ν)}
      (hbatch : s.batches[b]? = some batch)
      (hprogress : Progress isInt remoteAddr0 batch.stage stage line) :
      Rule isInt name remoteAddr0 s { s.setStage b batch stage with
        lines := s.lines ++ (line.map fun line => (b, line)).toList }
  | answered {b : ℕ} {batch : Batch ν} {status : ℕ} (hsending : s.sending = some b)
      (hbatch : s.batches[b]? = some batch) (hstage : batch.stage = .answered status) :
      Rule isInt name remoteAddr0 s (s.goOn b (status = 200))
  | raised {b : ℕ} (hsending : s.sending = some b) : Rule isInt name remoteAddr0 s (s.goOn b false)

theorem setStage_eq (s : RemoteLogger ν) (b : ℕ) (batch : Batch ν) (stage : Stage ν) :
    s.setStage b batch stage =
      { s.setStage b batch stage with
        lines := s.lines ++ ((none : Option (LogLine ν)).map fun line => (b, line)).toList } := by
  rw [Option.map_none, Option.toList_none, List.append_nil]
  rfl

theorem rule_of_step {i : Input ν} (h : step isInt name remoteAddr0 s i = some s') :
    Rule isInt name remoteAddr0 s s' := by
  cases i with
  | log r =>
    rw [step] at h
    split at h
    · obtain rfl := Option.some.inj h
      exact .logs ‹_›
    · obtain rfl := Option.some.inj h
      exact .idle
  | wake =>
    simp only [step] at h
    split at h
    · cases h
    · obtain rfl := Option.some.inj h
      exact .idle
    · obtain rfl := Option.some.inj h
      exact .takes ‹_›
  | arrive b =>
    obtain ⟨batch, hbatch, h⟩ := Option.bind_eq_some_iff.mp h
    split at h
    · rename_i json hstage
      split at h
      · rename_i hcall
        obtain rfl := Option.some.inj h
        rw [setStage_eq]
        exact .progresses hbatch (hstage ▸ .refused hcall)
      · rename_i hcall
        obtain rfl := Option.some.inj h
        rw [setStage_eq]
        exact .progresses hbatch (hstage ▸ .called hcall)
    all_goals cases h
  | round b =>
    obtain ⟨batch, hbatch, h⟩ := Option.bind_eq_some_iff.mp h
    split at h
    · rename_i n row rows hstage
      split at h
      · rename_i hround
        obtain rfl := Option.some.inj h
        rw [setStage_eq]
        exact .progresses hbatch (hstage ▸ .skips hround)
      · rename_i hround
        obtain rfl := Option.some.inj h
        rw [setStage_eq]
        exact .progresses hbatch (hstage ▸ .raises hround)
      · rename_i level msg hround
        obtain rfl := Option.some.inj h
        have hprogress : Progress isInt remoteAddr0 batch.stage (.handling n rows)
            (some ⟨level, bracket n remoteAddr0, msg⟩) := hstage ▸ .logs hround
        exact .progresses hbatch hprogress
    all_goals cases h
  | finish b =>
    obtain ⟨batch, hbatch, h⟩ := Option.bind_eq_some_iff.mp h
    split at h
    · rename_i hstage
      obtain rfl := Option.some.inj h
      rw [setStage_eq]
      exact .progresses hbatch (hstage ▸ .finishes)
    all_goals cases h
  | answer =>
    obtain ⟨b, hsending, h⟩ := Option.bind_eq_some_iff.mp h
    obtain ⟨batch, hbatch, h⟩ := Option.bind_eq_some_iff.mp h
    split at h
    · obtain rfl := Option.some.inj h
      exact .answered hsending hbatch ‹_›
    all_goals cases h
  | raise =>
    obtain ⟨b, hsending, rfl⟩ := Option.map_eq_some_iff.mp h
    exact .raised hsending

/-! ### What is logged of a batch -/

/-- What control logs of a record. -/
def Record.line (name : String) (remoteAddr0 : Char) (r : Record ν) : Option (LogLine ν) :=
  r.msg.map fun msg => ⟨.number r.level, bracket name remoteAddr0, msg⟩

theorem map_row_of_mapM {records : List (Record ν)} {rows : List (Json ν)}
    (h : records.mapM Record.row = some rows) : records.map Record.row = rows.map some := by
  induction records generalizing rows with
  | nil =>
    obtain rfl := Option.some.inj h
    rfl
  | cons r records ih =>
    rw [List.mapM_cons] at h
    obtain ⟨row, hrow, h⟩ := Option.bind_eq_some_iff.mp h
    obtain ⟨rest, hrest, h⟩ := Option.bind_eq_some_iff.mp h
    obtain rfl := Option.some.inj h
    rw [List.map_cons, List.map_cons, hrow, ih hrest]

/-- `log` is called with the rows of the request. -/
theorem logCall_body {records : List (Record ν)} {json : Json ν}
    (h : body name records = some json) :
    ∃ rows, records.map Record.row = rows.map some ∧ logCall isInt json = some (name, rows) := by
  obtain ⟨rows, hrows, rfl⟩ := Option.map_eq_some_iff.mp h
  refine ⟨rows, map_row_of_mapM hrows, ?_⟩
  rw [logCall, handlerWrapper_object, if_pos]
  · rfl
  · intro p hp c hc
    rcases List.mem_cons.mp hp with rfl | hp
    · obtain rfl := Option.some.inj hc
      rfl
    · obtain rfl := List.mem_singleton.mp hp
      obtain rfl := Option.some.inj hc
      rfl

/-- The row of a record is logged. -/
theorem logRound_row {r : Record ν} {row : Json ν} (h : r.row = some row)
    (hint : isInt r.level = true) :
    ∃ msg, r.msg = some msg ∧ logRound isInt row = .logs (.number r.level) msg := by
  obtain ⟨msg, hmsg, rfl⟩ := Option.map_eq_some_iff.mp h
  exact ⟨msg, hmsg, if_pos hint⟩

/-- Where a request is when these records have been logged, and these not. -/
def Stands (name : String) (done rest : List (Record ν)) : Stage ν → Prop
  | .unsent => done = []
  | .travelling json => done = [] ∧ body name rest = some json
  | .handling n rows => n = name ∧ rest.map Record.row = rows.map some
  | .answered status => status = 200 ∧ rest = []

/-- Of a batch, the first records are logged, in their order. -/
def Served (name : String) (remoteAddr0 : Char) (batch : Batch ν) (lines : List (LogLine ν)) :
    Prop :=
  ∃ done rest, batch.records = done ++ rest ∧
    lines.map some = done.map (Record.line name remoteAddr0) ∧ Stands name done rest batch.stage

theorem served_of_progress {batch : Batch ν} {lines : List (LogLine ν)} {stage : Stage ν}
    {line : Option (LogLine ν)} (hints : ∀ r ∈ batch.records, isInt r.level = true)
    (h : Served name remoteAddr0 batch lines)
    (hprogress : Progress isInt remoteAddr0 batch.stage stage line) :
    Served name remoteAddr0 { batch with stage := stage } (lines ++ line.toList) ∧
      (stage = .answered 200 ∨ ∀ status, stage ≠ .answered status) := by
  obtain ⟨done, rest, hrecords, hlines, hstands⟩ := h
  cases hstage : batch.stage with
  | unsent =>
    rw [hstage] at hprogress
    cases hprogress
  | answered status =>
    rw [hstage] at hprogress
    cases hprogress
  | travelling json =>
    rw [hstage] at hprogress hstands
    obtain ⟨rfl, hbody⟩ := hstands
    obtain ⟨rows, hrows, hcall⟩ := logCall_body hbody
    cases hprogress with
    | refused hrefused =>
      rw [hcall] at hrefused
      cases hrefused
    | called hcalled =>
      obtain ⟨rfl, rfl⟩ := Prod.mk.inj (Option.some.inj (hcall.symm.trans hcalled))
      refine ⟨⟨[], rest, hrecords, ?_, rfl, hrows⟩, Or.inr nofun⟩
      rwa [Option.toList_none, List.append_nil]
  | handling n rows =>
    rw [hstage] at hprogress hstands
    obtain ⟨rfl, hrows⟩ := hstands
    cases rows with
    | nil =>
      obtain rfl := List.map_eq_nil_iff.mp hrows
      cases hprogress
      refine ⟨⟨done, [], hrecords, ?_, rfl, rfl⟩, Or.inl rfl⟩
      rwa [Option.toList_none, List.append_nil]
    | cons row rows =>
      obtain ⟨r, rest, rfl, hrow, hrest⟩ := List.map_eq_cons_iff.mp hrows
      have hmem : r ∈ batch.records := by
        rw [hrecords]
        exact List.mem_append_right _ List.mem_cons_self
      obtain ⟨msg, hmsg, hround⟩ := logRound_row hrow (hints r hmem)
      cases hprogress with
      | skips hround' =>
        rw [hround] at hround'
        cases hround'
      | raises hround' =>
        rw [hround] at hround'
        cases hround'
      | logs hround' =>
        obtain ⟨rfl, rfl⟩ := LogRound.logs.inj (hround.symm.trans hround')
        refine ⟨⟨done ++ [r], rest, ?_, ?_, rfl, hrest⟩, Or.inr nofun⟩
        · rw [List.append_assoc]
          exact hrecords
        · rw [List.map_append, List.map_append, hlines, List.map_singleton, Record.line, hmsg]
          rfl

/-! ### Every record is accounted for -/

/-- What control has logged of a batch. -/
def linesOf (s : RemoteLogger ν) (b : ℕ) : List (LogLine ν) :=
  (s.lines.filter fun e => e.1 = b).map Prod.snd

/-- **The invariant.** -/
structure Accounted (isInt : ν → Bool) (name : String) (remoteAddr0 : Char) (s : RemoteLogger ν) :
    Prop where
  ints : ∀ r ∈ s.logged, isInt r.level = true
  logged : s.logged = s.batches.flatMap Batch.records ++ s.backlog
  served : ∀ (b : ℕ) (batch : Batch ν), s.batches[b]? = some batch →
    Served name remoteAddr0 batch (s.linesOf b)
  fate : ∀ (b : ℕ) (batch : Batch ν), s.batches[b]? = some batch →
    s.sending = some b ∨ b ∈ s.failed ∨ batch.stage = .answered 200
  last : ∀ b, s.sending = some b → b + 1 = s.batches.length
  known : ∀ e ∈ s.lines, e.1 < s.batches.length
  /-- Without a failure, a batch is served before the next one is sent. -/
  ordered : s.failed = [] →
    s.lines.map Prod.snd = (List.range s.batches.length).flatMap s.linesOf

theorem linesOf_eq_nil (h : Accounted isInt name remoteAddr0 s) {b : ℕ}
    (hb : s.batches.length ≤ b) : s.linesOf b = [] := by
  rw [linesOf, List.map_eq_nil_iff, List.filter_eq_nil_iff]
  intro e he heq
  have hlt := h.known e he
  have hb' : e.1 = b := of_decide_eq_true heq
  omega

theorem accounted_takes (h : Accounted isInt name remoteAddr0 s) (hsending : s.sending = none) :
    Accounted isInt name remoteAddr0 (s.takeBacklog name) := by
  have hlines : ∀ b, (s.takeBacklog name).linesOf b = s.linesOf b := fun _ => rfl
  have hget : ∀ {b : ℕ} {batch : Batch ν}, (s.takeBacklog name).batches[b]? = some batch →
      s.batches[b]? = some batch ∨ b = s.batches.length ∧
          batch = ⟨s.backlog, (body name s.backlog).elim .unsent .travelling⟩ := by
    intro b batch hb
    rw [takeBacklog, List.getElem?_append] at hb
    split at hb
    · exact Or.inl hb
    · rename_i hlt
      obtain ⟨hlt', hb⟩ := List.getElem?_eq_some_iff.mp hb
      rw [List.length_singleton] at hlt'
      rw [List.getElem_singleton] at hb
      exact Or.inr ⟨by omega, hb.symm⟩
  refine ⟨h.ints, ?_, fun b batch hb => ?_, fun b batch hb => ?_, fun b hb => ?_, fun e he => ?_,
    fun hfailed => ?_⟩
  · rw [takeBacklog, List.flatMap_append, List.flatMap_singleton, List.append_nil]
    exact h.logged
  · rcases hget hb with hb | ⟨rfl, rfl⟩
    · exact h.served b batch hb
    · refine ⟨[], s.backlog, rfl, ?_, ?_⟩
      · rw [hlines, linesOf_eq_nil h (Nat.le_refl _)]
        rfl
      · cases hbody : body name s.backlog with
        | none => rfl
        | some json => exact ⟨rfl, hbody⟩
  · rcases hget hb with hb | ⟨rfl, rfl⟩
    · rcases h.fate b batch hb with hsent | hrest
      · rw [hsending] at hsent
        cases hsent
      · exact Or.inr hrest
    · exact Or.inl rfl
  · obtain rfl := Option.some.inj hb
    rw [takeBacklog, List.length_append, List.length_singleton]
  · rw [takeBacklog, List.length_append]
    exact Nat.lt_add_right _ (h.known e he)
  · rw [List.flatMap_congr fun b _ => hlines b, takeBacklog, List.length_append,
      List.length_singleton, List.range_succ, List.flatMap_append, List.flatMap_singleton,
      linesOf_eq_nil h (Nat.le_refl _), List.append_nil]
    exact h.ordered hfailed

theorem accounted_progresses {b : ℕ} {batch : Batch ν} {stage : Stage ν}
    {line : Option (LogLine ν)} (h : Accounted isInt name remoteAddr0 s)
    (hbatch : s.batches[b]? = some batch)
    (hprogress : Progress isInt remoteAddr0 batch.stage stage line) :
    Accounted isInt name remoteAddr0 { s.setStage b batch stage with
      lines := s.lines ++ (line.map fun line => (b, line)).toList } := by
  have hlines : ∀ j, linesOf { s.setStage b batch stage with
      lines := s.lines ++ (line.map fun line => (b, line)).toList } j =
        s.linesOf j ++ if j = b then line.toList else [] := by
    intro j
    rw [linesOf, List.filter_append, List.map_append, ← linesOf]
    refine congrArg _ ?_
    cases line with
    | none => simp
    | some line =>
      rw [Option.map_some, Option.toList_some, List.filter_singleton]
      by_cases hj : j = b
      · simp [hj]
      · simp [hj, Ne.symm hj]
  have hopen : batch.stage ≠ .answered 200 := by
    intro hstage
    rw [hstage] at hprogress
    cases hprogress
  have hlt : b < s.batches.length := (List.getElem?_eq_some_iff.mp hbatch).1
  have hints : ∀ r ∈ batch.records, isInt r.level = true := by
    intro r hr
    refine h.ints r ?_
    rw [h.logged]
    exact List.mem_append_left _
      (List.mem_flatMap.mpr ⟨batch, List.mem_of_getElem? hbatch, hr⟩)
  refine ⟨h.ints, ?_, fun j batch' hj => ?_, fun j batch' hj => ?_, fun j hj => ?_, fun e he => ?_,
    fun hfailed => ?_⟩
  · have hmap : ((s.batches.set b { batch with stage := stage }).map Batch.records) =
        s.batches.map Batch.records := map_set_of_eq hbatch rfl
    rw [setStage, List.flatMap_def, hmap, ← List.flatMap_def]
    exact h.logged
  · rw [hlines]
    rw [setStage, getElem?_set_of_some hbatch] at hj
    split at hj
    · rename_i heq
      obtain rfl := Option.some.inj hj
      rw [heq, if_pos rfl]
      exact (served_of_progress hints (h.served b batch hbatch) hprogress).1
    · rename_i hne
      rw [if_neg hne, List.append_nil]
      exact h.served j batch' hj
  · rw [setStage, getElem?_set_of_some hbatch] at hj
    split at hj
    · rename_i heq
      rw [heq]
      exact (h.fate b batch hbatch).imp_right fun hrest => Or.inl (hrest.resolve_right hopen)
    · exact h.fate j batch' hj
  · rw [setStage, List.length_set]
    exact h.last j hj
  · rw [setStage, List.length_set]
    rcases List.mem_append.mp he with he | he
    · exact h.known e he
    · obtain ⟨line, -, rfl⟩ := Option.map_eq_some_iff.mp (Option.mem_toList.mp he)
      exact hlt
  · have hlast : b + 1 = s.batches.length := by
      refine h.last b ((h.fate b batch hbatch).resolve_right ?_)
      rintro (hmem | hanswered)
      · rw [show s.failed = [] from hfailed] at hmem
        cases hmem
      · exact hopen hanswered
    have hbefore : ∀ j ∈ List.range b, s.linesOf j ++ (if j = b then line.toList else []) =
        s.linesOf j := by
      intro j hj
      have hne : j ≠ b := (List.mem_range.mp hj).ne
      rw [if_neg hne, List.append_nil]
    have hline : ((line.map fun line => (b, line)).toList.map Prod.snd) = line.toList := by
      cases line <;> rfl
    rw [List.flatMap_congr fun j _ => hlines j, List.map_append, h.ordered hfailed, hline, setStage,
      List.length_set, ← hlast, List.range_succ, List.flatMap_append, List.flatMap_append,
      List.flatMap_congr hbefore, List.flatMap_singleton, List.flatMap_singleton, if_pos rfl,
      List.append_assoc]

theorem accounted_goOn {b : ℕ} {success : Bool} (h : Accounted isInt name remoteAddr0 s)
    (hsending : s.sending = some b)
    (hsuccess : success = true → ∀ batch, s.batches[b]? = some batch →
      batch.stage = .answered 200) : Accounted isInt name remoteAddr0 (s.goOn b success) := by
  refine ⟨h.ints, h.logged, h.served, fun j batch hj => ?_, nofun, h.known, fun hfailed => ?_⟩
  · rcases h.fate j batch hj with hsent | hmem | hanswered
    · obtain rfl := Option.some.inj (hsending.symm.trans hsent)
      cases success with
      | true => exact Or.inr (Or.inr (hsuccess rfl batch hj))
      | false => exact Or.inr (Or.inl (List.mem_append_right _ List.mem_cons_self))
    · refine Or.inr (Or.inl ?_)
      cases success with
      | true => exact hmem
      | false => exact List.mem_append_left _ hmem
    · exact Or.inr (Or.inr hanswered)
  · cases success with
    | true => exact h.ordered hfailed
    | false => cases (List.append_eq_nil_iff.mp hfailed).2

theorem accounted_step {i : Input ν} (h : Accounted isInt name remoteAddr0 s)
    (hstep : step isInt name remoteAddr0 s i = some s') : Accounted isInt name remoteAddr0 s' := by
  cases rule_of_step hstep with
  | idle => exact h
  | logs hint =>
    refine ⟨fun r hr => ?_, ?_, h.served, h.fate, h.last, h.known, h.ordered⟩
    · rcases List.mem_append.mp hr with hr | hr
      · exact h.ints r hr
      · rwa [List.mem_singleton.mp hr]
    · rw [h.logged, List.append_assoc]
  | takes hsending => exact accounted_takes h hsending
  | progresses hbatch hprogress => exact accounted_progresses h hbatch hprogress
  | answered hsending hbatch hstage =>
    refine accounted_goOn h hsending fun hsuccess batch' hbatch' => ?_
    obtain rfl := Option.some.inj (hbatch.symm.trans hbatch')
    rw [hstage, of_decide_eq_true hsuccess]
  | raised hsending => exact accounted_goOn h hsending nofun

theorem accounted_of_reaches (h : (machine isInt name remoteAddr0).Reaches start s) :
    Accounted isInt name remoteAddr0 s := by
  have hnone : ∀ {b : ℕ} {batch : Batch ν}, ¬(start : RemoteLogger ν).batches[b]? = some batch := by
    intro b batch hb
    rw [start, List.getElem?_nil] at hb
    cases hb
  refine h.invariant (I := Accounted isInt name remoteAddr0)
    (fun _ _ _ hs hstep => accounted_step hs hstep) ?_
  exact ⟨fun r hr => absurd hr List.not_mem_nil, rfl, fun b batch hb => absurd hb hnone,
    fun b batch hb => absurd hb hnone, fun b hb => absurd hb (Option.some_ne_none b).symm,
    fun e he => absurd he List.not_mem_nil, fun _ => rfl⟩

/-- A batch is logged completely, unless it is the one being sent or has failed. -/
theorem complete_of_accounted (h : Accounted isInt name remoteAddr0 s) {b : ℕ} {batch : Batch ν}
    (hbatch : s.batches[b]? = some batch) (hsending : s.sending ≠ some b) (hfailed : b ∉ s.failed) :
    (s.linesOf b).map some = batch.records.map (Record.line name remoteAddr0) := by
  have hstage := ((h.fate b batch hbatch).resolve_left hsending).resolve_left hfailed
  obtain ⟨done, rest, hrecords, hlines, hstands⟩ := h.served b batch hbatch
  rw [hstage] at hstands
  obtain ⟨-, rfl⟩ := hstands
  rw [hlines, hrecords, List.append_nil]

/-- What the first batches have come to, where they are complete. -/
theorem flatMap_linesOf (h : Accounted isInt name remoteAddr0 s) (hfailed : s.failed = []) {k : ℕ}
    (hk : k ≤ s.batches.length) (hbefore : ∀ b < k, s.sending ≠ some b) :
    ((List.range k).flatMap s.linesOf).map some =
      ((s.batches.take k).flatMap Batch.records).map (Record.line name remoteAddr0) := by
  induction k with
  | zero => rfl
  | succ k ih =>
    have hlt : k < s.batches.length := hk
    rw [List.range_succ, List.flatMap_append, List.flatMap_singleton, List.map_append,
      ih (Nat.le_of_lt hk) fun b hb => hbefore b (Nat.lt_succ_of_lt hb), List.take_add_one,
      List.getElem?_eq_getElem hlt, Option.toList_some, List.flatMap_append, List.map_append,
      List.flatMap_singleton,
      complete_of_accounted h (List.getElem?_eq_getElem hlt) (hbefore k (Nat.lt_succ_self k))
        (by rw [hfailed]; exact List.not_mem_nil)]

/-- **Every record is accounted for.** In every run, whatever becomes of the
requests: what has been logged is in the batches, in its order, or in the backlog.
Of each batch control has logged the first records, in their order and once, and
all of them unless the batch is being sent or a failure has been logged for it. And
where no failure has been logged, control has logged the first records of all, in
their order, and all but the backlog when nothing is being sent. -/
theorem accounted (h : (machine isInt name remoteAddr0).Reaches start s) :
    s.logged = s.batches.flatMap Batch.records ++ s.backlog ∧
      (∀ (b : ℕ) (batch : Batch ν), s.batches[b]? = some batch →
        ∃ done rest, batch.records = done ++ rest ∧
          (s.linesOf b).map some = done.map (Record.line name remoteAddr0) ∧
          (s.sending ≠ some b → b ∉ s.failed → rest = [])) ∧
      (s.failed = [] → ∃ done rest, s.logged = done ++ rest ∧
        (s.lines.map Prod.snd).map some = done.map (Record.line name remoteAddr0) ∧
        (s.sending = none → rest = s.backlog)) := by
  have haccounted := accounted_of_reaches h
  refine ⟨haccounted.logged, fun b batch hbatch => ?_, fun hfailed => ?_⟩
  · obtain ⟨done, rest, hrecords, hlines, hstands⟩ := haccounted.served b batch hbatch
    refine ⟨done, rest, hrecords, hlines, fun hsending hno => ?_⟩
    rw [((haccounted.fate b batch hbatch).resolve_left hsending).resolve_left hno] at hstands
    exact hstands.2
  · rw [haccounted.ordered hfailed, haccounted.logged]
    cases hsending : s.sending with
    | none =>
      refine ⟨s.batches.flatMap Batch.records, s.backlog, rfl, ?_, fun _ => rfl⟩
      rw [flatMap_linesOf haccounted hfailed (Nat.le_refl _) (by rw [hsending]; nofun),
        List.take_length]
    | some b =>
      have hlast := haccounted.last b hsending
      have hlt : b < s.batches.length := by omega
      -- the batches before are complete
      obtain ⟨done, rest, hrecords, hlines, -⟩ :=
        haccounted.served b _ (List.getElem?_eq_getElem hlt)
      have htake : s.batches.take (b + 1) = s.batches := by rw [hlast, List.take_length]
      have hall : s.batches.flatMap Batch.records =
          (s.batches.take b).flatMap Batch.records ++ (done ++ rest) := by
        conv_lhs => rw [← htake, List.take_add_one, List.getElem?_eq_getElem hlt,
          Option.toList_some, List.flatMap_append, List.flatMap_singleton, hrecords]
      refine ⟨(s.batches.take b).flatMap Batch.records ++ done, rest ++ s.backlog, ?_, ?_, nofun⟩
      · rw [hall, List.append_assoc, List.append_assoc, List.append_assoc]
      · rw [← hlast, List.range_succ, List.flatMap_append, List.flatMap_singleton, List.map_append,
          List.map_append, hlines, flatMap_linesOf haccounted hfailed (Nat.le_of_lt hlt)]
        intro b' hb' heq
        rw [hsending] at heq
        obtain rfl := Option.some.inj heq
        exact Nat.lt_irrefl _ hb'

/-- A batch of two records, and a record after it. -/
def twoThenOne : List (Input ℤ) :=
  [.log ⟨20, some (.str "a")⟩, .log ⟨40, some (.str "b")⟩, .wake, .arrive 0, .round 0,
    .log ⟨20, some (.str "c")⟩, .round 0, .finish 0, .answer]

theorem twoThenOne_accounted :
    ∃ s, (machine (fun _ : ℤ => true) "pi1" '1').run start twoThenOne = some s ∧
      s.lines.length = 2 ∧ ∃ done rest, s.logged = done ++ rest ∧
        (s.lines.map Prod.snd).map some = done.map (Record.line "pi1" '1') ∧ rest = s.backlog := by
  obtain ⟨s, hs, hlines, hfailed, hsending⟩ :
      ∃ s, (machine (fun _ : ℤ => true) "pi1" '1').run start twoThenOne = some s ∧
        s.lines.length = 2 ∧ s.failed = [] ∧ s.sending = none := ⟨_, rfl, rfl, rfl, rfl⟩
  obtain ⟨done, rest, hlogged, hmap, hrest⟩ := (accounted ⟨_, hs⟩).2.2 hfailed
  exact ⟨s, hs, hlines, done, rest, hlogged, hmap, hrest hsending⟩

end RemoteLogger

end UsbipIce
