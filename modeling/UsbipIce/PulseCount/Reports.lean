import UsbipIce.PulseCount.Evaluation

/-!
# What a results event reports

`UsbipIce.PulseCount.Board.evaluates_iff` supposes that no name is requested twice.
That is up to the client, and to the threads of `handle`, which may ask a device
twice (`UsbipIce.Worker.handleRequests_slowFirst`). Here nothing is supposed of
the requests. Two things remain:

* every count reported answered an upload of bytes submitted under its name
  (`UsbipIce.PulseCount.Host.Answered`), as long as the device answers each
  complete upload at most once;
* **a results event reports requests as a whole**: with one name of a request it
  has all of them (`UsbipIce.PulseCount.Host.Together`). A request is put on the
  queue in one section, and results are handed over only when nothing is left of
  what was put there since the last time.

What is handed to `finished` is all that an event can carry.
-/

namespace UsbipIce.PulseCount

open Lib

variable {ν δ : Type*}

/-- The list is of whole batches: with a name it has all the names of one of its
batches. -/
def Covers (P : List String → Prop) (l : List String) : Prop :=
  ∀ name ∈ l, ∃ names, P names ∧ name ∈ names ∧ names ⊆ l

section Covers

variable {P : List String → Prop} {l l' : List String}

theorem covers_nil : Covers P [] := fun _ h => absurd h List.not_mem_nil

theorem Covers.append (h : Covers P l) (h' : Covers P l') : Covers P (l ++ l') := by
  intro name hname
  rcases List.mem_append.mp hname with hleft | hright
  · obtain ⟨names, hnames, hmem, hsub⟩ := h name hleft
    exact ⟨names, hnames, hmem, List.subset_append_of_subset_left _ hsub⟩
  · obtain ⟨names, hnames, hmem, hsub⟩ := h' name hright
    exact ⟨names, hnames, hmem, List.subset_append_of_subset_right _ hsub⟩

theorem covers_of_batch (h : P l) : Covers P l :=
  fun _ hname => ⟨l, h, hname, List.Subset.refl l⟩

theorem Covers.mono {P' : List String → Prop} (h : Covers P l)
    (himp : ∀ names, P names → P' names) : Covers P' l := by
  intro name hname
  obtain ⟨names, hnames, hmem, hsub⟩ := h name hname
  exact ⟨names, himp names hnames, hmem, hsub⟩

theorem Covers.congr (h : Covers P l) (hsame : ∀ x, x ∈ l' ↔ x ∈ l) : Covers P l' := by
  intro name hname
  obtain ⟨names, hnames, hmem, hsub⟩ := h name ((hsame name).mp hname)
  exact ⟨names, hnames, hmem, fun x hx => (hsame x).mpr (hsub hx)⟩

end Covers

namespace Host

/-! ### Counts -/

/-- The device answers a complete upload at most once. -/
def AnswersOnce (search : δ → List (Signal ν)) (s : Host ν) : HostInput δ → Prop
  | .receive data =>
    s.history.answers.length + (answers (search data)).length ≤ s.history.uploads.length
  | .request .. | .queue _ | .run | .read | .handleExit => True

instance (search : δ → List (Signal ν)) (s : Host ν) (i : HostInput δ) :
    Decidable (AnswersOnce search s i) :=
  match i with
  | .receive data =>
    inferInstanceAs (Decidable (s.history.answers.length + (answers (search data)).length ≤
      s.history.uploads.length))
  | .request .. | .queue _ | .run | .read | .handleExit => isTrue trivial

/-- The value is a count that answered an upload of bytes submitted under the
name. -/
def Answered (s : Host ν) (name : String) (value : Option ν) : Prop :=
  ∃ (b : Bitstream) (bytes : List UInt8) (n : ν) (i : ℕ), b.name = name ∧ s.Submitted b bytes ∧
    s.history.uploads[i]? = some (b, bytes) ∧ s.history.answers[i]? = some (Answer.pulses n) ∧
    value = some n

variable {search : δ → List (Signal ν)} {s t : Host ν} {i : HostInput δ}

theorem Answered.mono {name : String} {value : Option ν} (h : s.Answered name value)
    (hsubmitted : s.history.submitted ⊆ t.history.submitted)
    (huploads : s.history.uploads <+: t.history.uploads)
    (hanswers : s.history.answers <+: t.history.answers) : t.Answered name value := by
  obtain ⟨b, bytes, n, i, hname, hbytes, hupload, hanswer, hvalue⟩ := h
  exact ⟨b, bytes, n, i, hname, hbytes.mono hsubmitted, getElem?_of_prefix huploads hupload,
    getElem?_of_prefix hanswers hanswer, hvalue⟩

theorem Answered.step {name : String} {value : Option ν} (h : s.Answered name value)
    (hstep : s.step search i = some t) : t.Answered name value := by
  obtain ⟨hanswers, l, huploads, -⟩ := history_step hstep
  exact h.mono (submitted_step hstep) ⟨l, huploads.symm⟩ hanswers

/-- A request leaves the reader alone, so it is all one whether its names are
new. -/
theorem exchanges_step_of_answersOnce (hs : s.Exchanges) (honce : AnswersOnce search s i)
    (h : s.step search i = some t) : t.Exchanges := by
  by_cases hcontract : Contract search s i
  · exact exchanges_step hs hcontract h
  · cases rule_of_step h with
    | request hlen hnodup hfresh => exact ⟨hs.exiting, hs.exchange⟩
    | receive hr => exact absurd honce hcontract
    | _ => exact absurd trivial hcontract

/-- The count about to be stored answered an upload of the bitstream it is stored
for. -/
theorem answered_judge (hcarried : s.Carried) (hexchanges : s.Exchanges) {b : Bitstream}
    {n : Option ν} (hrun : s.run = .judge b (n.map .pulses)) : s.Answered b.name n := by
  obtain ⟨bytes, n', hbytes, hu, ha, rfl⟩ := answered_last hcarried hexchanges hrun
  exact ⟨b, bytes, n', _, rfl, hbytes, hu, ha, rfl⟩

/-! ### Whole requests -/

/-- The names whose evaluation is not reported yet. -/
def current (s : Host ν) : List String := s.pending.map Bitstream.name ++ s.results.keys

/-- **Requests stay together**: what is to be reported, and what has been, are
whole requests. -/
structure Together (P : List String → Prop) (s : Host ν) : Prop where
  calls : ∀ c ∈ s.calls, P c.files.keys
  current : Covers P s.current
  handed : ∀ event ∈ s.handed, Covers P event.keys

theorem together_start (P : List String → Prop) : (start : Host ν).Together P where
  calls := fun _ h => absurd h List.not_mem_nil
  current := covers_nil
  handed := fun _ h => absurd h List.not_mem_nil

variable {P : List String → Prop}

/-- The steps that report nothing and have the same names to report. -/
theorem Together.frame (hs : s.Together P) (hcalls : t.calls ⊆ s.calls)
    (hhanded : t.handed = s.handed) (hcurrent : ∀ x, x ∈ t.current ↔ x ∈ s.current) :
    t.Together P where
  calls := fun c hc => hs.calls c (hcalls hc)
  current := hs.current.congr hcurrent
  handed := by rw [hhanded]; exact hs.handed

/-- Those that keep the bitstreams to be evaluated. -/
theorem Together.keep (hs : s.Together P) (hcalls : t.calls ⊆ s.calls)
    (hhanded : t.handed = s.handed) (hresults : t.results = s.results)
    (hqueue : t.bitstreamQueue = s.bitstreamQueue)
    (heval : t.run.evaluating = s.run.evaluating) : t.Together P :=
  hs.frame hcalls hhanded fun x => by
    rw [Host.current, Host.current, pending, pending, hresults, hqueue, heval]

theorem Together.uploadFrom {s' : Host ν} (hs : s.Together P) {b : Bitstream}
    (hrun : s.run.evaluating = some b) (hcalls : s'.calls = s.calls)
    (hqueue : s'.bitstreamQueue = s.bitstreamQueue) (hresults : s'.results = s.results)
    (hhanded : s'.handed = s.handed) (data : List UInt8) (i : ℕ) :
    (s'.uploadFrom b data i).Together P := by
  have hsub : s'.calls ⊆ s.calls := hcalls ▸ List.Subset.refl _
  rw [Host.uploadFrom]
  split
  · exact hs.keep hsub hhanded hresults hqueue hrun.symm
  · exact hs.keep hsub hhanded hresults hqueue hrun.symm

/-- A request is put on the queue as a whole. -/
theorem Together.append (hs : s.Together P) (hf : s.Filed) {k : ℕ} {c : Call}
    (hk : s.calls[k]? = some c) : Together P { s with
      bitstreamQueue := s.bitstreamQueue ++ c.bitstreams
      calls := s.calls.eraseIdx k
      history := { s.history with submitted := s.history.submitted ++ c.entries } } := by
  have hc : c ∈ s.calls := List.mem_of_getElem? hk
  have hnames : c.bitstreams.map Bitstream.name = c.files.keys := by
    rw [Call.bitstreams_eq, List.map_map]
    exact Call.map_name_entries (hf.lengths c hc)
  refine ⟨fun c' hc' => hs.calls c' (List.mem_of_mem_eraseIdx hc'), ?_, hs.handed⟩
  refine (hs.current.append (covers_of_batch (hs.calls c hc))).congr fun x => ?_
  rw [← hnames]
  simp only [Host.current, pending, List.map_append, List.mem_append]
  tauto

/-- The name stored is that of the bitstream evaluated. -/
theorem mem_current_store {b : Bitstream} {n : Option ν}
    (hrun : s.run = .judge b (n.map .pulses)) (x : String) :
    x ∈ (s.store b n).current ↔ x ∈ s.current := by
  have heval : s.run.evaluating = some b := by rw [hrun, Run.evaluating]
  have hkeys : x ∈ (s.store b n).results.keys ↔ x = b.name ∨ x ∈ s.results.keys :=
    Table.mem_keys_put
  have hnone : (s.store b n).run.evaluating = none := rfl
  have hqueue : (s.store b n).bitstreamQueue = s.bitstreamQueue := rfl
  rw [Host.current, Host.current, pending, pending, hnone, hqueue, heval, List.mem_append, hkeys]
  simp only [Option.toList_none, Option.toList_some, List.append_nil, List.map_append,
    List.map_singleton, List.mem_append, List.mem_singleton]
  tauto

theorem together_step (hs : s.Together P) (hf : s.Filed)
    (hrequest : ∀ paths files, i = .request paths files → P files.keys)
    (h : s.step search i = some t) : t.Together P := by
  cases rule_of_step h with
  | @request paths files hlen hnodup hfresh =>
    refine ⟨fun c hc => ?_, hs.current, hs.handed⟩
    rcases List.mem_append.mp hc with hold | hnew
    · exact hs.calls c hold
    · obtain rfl := List.mem_singleton.mp hnew
      exact hrequest paths files rfl
  | @write k c path data bytes hk hc hd =>
    refine ⟨fun c' hc' => ?_, hs.current, hs.handed⟩
    rcases List.mem_or_eq_of_mem_set hc' with hold | rfl
    · exact hs.calls c' hold
    · exact hs.calls c (List.mem_of_getElem? hk)
  | raise hk hc => exact hs.keep (List.eraseIdx_subset ..) rfl rfl rfl rfl
  | append hk hc => exact hs.append hf hk
  | loop hrun => exact hs.keep (List.Subset.refl _) rfl rfl rfl (by rw [hrun]; rfl)
  | leave hrun =>
    rcases hrun with hloop | htake | ⟨b, hread, hfile⟩
    · exact hs.keep (List.Subset.refl _) rfl rfl rfl (by rw [hloop]; rfl)
    · exact hs.keep (List.Subset.refl _) rfl rfl rfl (by rw [htake]; rfl)
    · -- the file of a bitstream to be evaluated is there
      have hmem : b ∈ s.pending := by
        rw [pending, hread]
        exact List.mem_append_right _ List.mem_cons_self
      obtain ⟨bytes, -, hthere⟩ := hf.filed b hmem
      rw [hfile] at hthere
      cases hthere
  | @take b hrun hb =>
    refine hs.frame (List.Subset.refl _) rfl fun x => ?_
    rw [Host.current, Host.current, pending, pending, hrun, Run.evaluating, Run.evaluating,
      Option.toList_some, List.dropLast_append_getLast? b hb, Option.toList_none, List.append_nil]
  | read hrun hfile => exact hs.keep (List.Subset.refl _) rfl rfl rfl (by rw [hrun]; rfl)
  | ready hrun hr =>
    refine hs.uploadFrom ?_ ?_ ?_ ?_ ?_ _ _
    · rw [hrun, Run.evaluating]
    all_goals rfl
  | chunk hrun =>
    refine hs.uploadFrom ?_ ?_ ?_ ?_ ?_ _ _
    · rw [hrun, Run.evaluating]
    all_goals rfl
  | pulse hrun hr => exact hs.keep (List.Subset.refl _) rfl rfl rfl (by rw [hrun]; rfl)
  | @requeue b hrun =>
    refine hs.frame (List.Subset.refl _) rfl fun x => ?_
    rw [Host.current, Host.current, pending, pending, hrun, Run.evaluating, Run.evaluating,
      Option.toList_none, List.append_nil]
    rfl
  | store hrun => exact hs.frame (List.Subset.refl _) rfl (mem_current_store hrun)
  | remove hrun => exact hs.keep (List.Subset.refl _) rfl rfl rfl (by rw [hrun]; rfl)
  | send hrun hqueue =>
    -- nothing is left to be evaluated
    have hcurrent : s.current = s.results.keys := by
      rw [Host.current, pending, hqueue, hrun]
      rfl
    refine ⟨hs.calls, ?_, fun event hevent => ?_⟩
    · show Covers P ((s.bitstreamQueue ++ []).map Bitstream.name ++ [])
      rw [hqueue]
      exact covers_nil
    · rcases List.mem_append.mp hevent with hold | hnew
      · exact hs.handed event hold
      · obtain rfl := List.mem_singleton.mp hnew
        exact hcurrent ▸ hs.current
  | keep hrun => exact hs.keep (List.Subset.refl _) rfl rfl rfl (by rw [hrun]; rfl)
  | receive hr => exact hs.keep (List.Subset.refl _) rfl rfl rfl rfl
  | signal hr => exact hs.keep (List.Subset.refl _) rfl rfl rfl rfl
  | exit => exact hs.keep (List.Subset.refl _) rfl rfl rfl rfl
  | joinRun hrun => exact hs.keep (List.Subset.refl _) rfl rfl rfl rfl

/-! ### What was asked for -/

/-- What is submitted was asked for: `Q` says which texts were, under which
names. -/
structure Asked (Q : String → String → Prop) (s : Host ν) : Prop where
  calls : ∀ c ∈ s.calls, ∀ r ∈ c.files, Q r.1 r.2
  submitted : ∀ e ∈ s.history.submitted, Q e.1.name e.2

variable {Q : String → String → Prop}

theorem asked_start (Q : String → String → Prop) : (start : Host ν).Asked Q where
  calls := fun _ h => absurd h List.not_mem_nil
  submitted := fun _ h => absurd h List.not_mem_nil

theorem Asked.frame (hs : s.Asked Q) (hcalls : t.calls ⊆ s.calls)
    (hsubmitted : t.history.submitted = s.history.submitted) : t.Asked Q where
  calls := fun c hc => hs.calls c (hcalls hc)
  submitted := by rw [hsubmitted]; exact hs.submitted

theorem Asked.uploadFrom {s' : Host ν} (hs : s.Asked Q) (hcalls : s'.calls = s.calls)
    (hhistory : s'.history = s.history) (b : Bitstream) (data : List UInt8) (i : ℕ) :
    (s'.uploadFrom b data i).Asked Q := by
  have hsub : s'.calls ⊆ s.calls := hcalls ▸ List.Subset.refl _
  rw [Host.uploadFrom]
  split
  · exact hs.frame hsub (by rw [hhistory])
  · exact hs.frame hsub (by rw [hhistory])

theorem asked_step (hs : s.Asked Q)
    (hrequest : ∀ paths files, i = .request paths files → ∀ r ∈ files, Q r.1 r.2)
    (h : s.step search i = some t) : t.Asked Q := by
  cases rule_of_step h with
  | @request paths files hlen hnodup hfresh =>
    refine ⟨fun c hc => ?_, hs.submitted⟩
    rcases List.mem_append.mp hc with hold | hnew
    · exact hs.calls c hold
    · obtain rfl := List.mem_singleton.mp hnew
      exact hrequest paths files rfl
  | @write k c path data bytes hk hc hd =>
    refine ⟨fun c' hc' => ?_, hs.submitted⟩
    rcases List.mem_or_eq_of_mem_set hc' with hold | rfl
    · exact hs.calls c' hold
    · exact hs.calls c (List.mem_of_getElem? hk)
  | raise hk hc => exact hs.frame (List.eraseIdx_subset ..) rfl
  | @append k c hk hc =>
    refine ⟨fun c' hc' => hs.calls c' (List.mem_of_mem_eraseIdx hc'), fun e he => ?_⟩
    rcases List.mem_append.mp he with hold | hnew
    · exact hs.submitted e hold
    · obtain ⟨p, hp, rfl⟩ := List.mem_map.mp hnew
      exact hs.calls c (List.mem_of_getElem? hk) p.2 (List.of_mem_zip hp).2
  | ready hrun hr =>
    refine hs.uploadFrom ?_ ?_ _ _ _
    all_goals rfl
  | chunk hrun =>
    refine hs.uploadFrom ?_ ?_ _ _ _
    all_goals rfl
  | _ => exact hs.frame (List.Subset.refl _) rfl

/-- What was handed over stays so. -/
theorem handed_subset_step (h : s.step search i = some t) : s.handed ⊆ t.handed := by
  cases rule_of_step h with
  | ready hrun hr =>
    obtain ⟨run, uploads, heq⟩ := uploadFrom_eq _ _ _ _
    rw [heq]
    exact List.Subset.refl _
  | chunk hrun =>
    obtain ⟨run, uploads, heq⟩ := uploadFrom_eq _ _ _ _
    rw [heq]
    exact List.Subset.refl _
  | send hrun hqueue => exact List.subset_append_left _ _
  | _ => exact List.Subset.refl _

/-! ### The reports -/

/-- What a device has to report, and has reported. -/
structure Reports (P : List String → Prop) (Q : String → String → Prop) (s : Host ν) : Prop where
  filed : s.Filed
  carried : s.Carried
  exchanges : s.Exchanges
  answered : ∀ row, s.Row row → s.Answered row.1 row.2
  together : s.Together P
  asked : s.Asked Q

theorem reports_start (P : List String → Prop) (Q : String → String → Prop) :
    (start : Host ν).Reports P Q where
  filed := filed_start
  carried := carried_start
  exchanges := exchanges_start
  answered := fun row hrow => by
    rcases hrow with hresult | ⟨event, hevent, -⟩
    · exact absurd hresult (Table.not_mem_empty _)
    · exact absurd hevent List.not_mem_nil
  together := together_start P
  asked := asked_start Q

theorem Reports.mono {P' : List String → Prop} {Q' : String → String → Prop} (hs : s.Reports P Q)
    (hP : ∀ names, P names → P' names) (hQ : ∀ name text, Q name text → Q' name text) :
    s.Reports P' Q' where
  filed := hs.filed
  carried := hs.carried
  exchanges := hs.exchanges
  answered := hs.answered
  together :=
    { calls := fun c hc => hP _ (hs.together.calls c hc)
      current := hs.together.current.mono hP
      handed := fun event hevent => (hs.together.handed event hevent).mono hP }
  asked :=
    { calls := fun c hc r hr => hQ _ _ (hs.asked.calls c hc r hr)
      submitted := fun e he => hQ _ _ (hs.asked.submitted e he) }

/-- **Whatever is requested**, a step keeps to what is reported. -/
theorem reports_step (hs : s.Reports P Q) (honce : AnswersOnce search s i)
    (hrequest : ∀ paths files, i = .request paths files →
      P files.keys ∧ ∀ r ∈ files, Q r.1 r.2) (h : s.step search i = some t) :
    t.Reports P Q where
  filed := filed_step hs.filed h
  carried := carried_step hs.filed hs.carried h
  exchanges := exchanges_step_of_answersOnce hs.exchanges honce h
  answered := fun row hrow => by
    rcases row_step h hrow with hold | ⟨b, n, hrun, -, rfl⟩
    · exact (hs.answered row hold).step h
    · exact (answered_judge hs.carried hs.exchanges hrun).step h
  together := together_step hs.together hs.filed
    (fun paths files hi => (hrequest paths files hi).1) h
  asked := asked_step hs.asked (fun paths files hi => (hrequest paths files hi).2) h

end Host

end UsbipIce.PulseCount
