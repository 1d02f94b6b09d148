import UsbipIce.PulseCount.Files

/-!
# Evaluation: no bitstream is repeated or given another's count

What a `PulseCountState` does about the requests `evaluate` it accepts, as long as
the names in them are different and the device answers each complete upload with
one message (`UsbipIce.PulseCount.Host.Contract`):

* every queued name is in exactly one place, in `bitstream_queue`, under
  evaluation, in `results` or in what was handed to `finished`;
* the count recorded for it is the answer to the last upload of the bytes
  submitted under it;
* results are handed over only when nothing queued remains.

Whether an event comes of what is handed over is another matter
(`UsbipIce.PulseCount.Board.evaluates_iff`).

The first two are one induction each. Where a name is changes with every step
of the run thread, but the names of all places together are always those
submitted (`UsbipIce.PulseCount.Host.Named`). And the answer to an upload passes
through the reader, in which at most one is held at a time, since the next
upload does not start before the answer to the last is taken
(`UsbipIce.PulseCount.Host.Exchanges`).
-/

namespace UsbipIce.PulseCount

open Lib

variable {ν δ : Type*}

namespace Host

/-! ### What the outside promises -/

/-- **The outside keeps to the contract**: the names in a request are new, and
what is read from the device answers an upload only where a complete upload is
without an answer, and then only once. -/
def Contract (search : δ → List (Signal ν)) (s : Host ν) : HostInput δ → Prop
  | .request _ files => ∀ name ∈ files.keys, name ∉ s.history.requested
  | .receive data =>
    s.history.answers.length + (answers (search data)).length ≤ s.history.uploads.length
  | .queue _ | .run | .read | .handleExit => True

instance (search : δ → List (Signal ν)) (s : Host ν) (i : HostInput δ) :
    Decidable (Contract search s i) :=
  match i with
  | .request _ files =>
    inferInstanceAs (Decidable (∀ name ∈ files.keys, name ∉ s.history.requested))
  | .receive data =>
    inferInstanceAs (Decidable (s.history.answers.length + (answers (search data)).length ≤
      s.history.uploads.length))
  | .queue _ | .run | .read | .handleExit => isTrue trivial

/-! ### Where a name is -/

/-- The names submitted. -/
def names (s : Host ν) : List String := s.history.submitted.map fun e => e.1.name

/-- The names in `bitstream_queue`, under evaluation, in `results` and in what was
handed over, one entry for each place. -/
def places (s : Host ν) : List String :=
  s.bitstreamQueue.map Bitstream.name ++ s.run.evaluating.toList.map Bitstream.name ++
    s.results.keys ++ s.handed.flatMap Table.keys

/-- **Every name is in one place**: the places hold the names submitted, which
are all different, and different from those of the calls under way. -/
structure Named (s : Host ν) : Prop where
  nodup : (s.names ++ s.calls.flatMap fun c => c.files.keys).Nodup
  requested : s.names ++ (s.calls.flatMap fun c => c.files.keys) ⊆ s.history.requested
  places : s.places.Perm s.names

theorem named_start : (start : Host ν).Named where
  nodup := List.nodup_nil
  requested := List.Subset.refl _
  places := List.Perm.refl _

theorem Named.nodup_places {s : Host ν} (hs : s.Named) : s.places.Nodup :=
  hs.places.nodup_iff.mpr (List.nodup_append.mp hs.nodup).1

/-- The steps that submit nothing and start or end no call. -/
theorem Named.frame {s t : Host ν} (hs : s.Named) (hcalls : t.calls = s.calls)
    (hsubmitted : t.history.submitted = s.history.submitted)
    (hrequested : t.history.requested = s.history.requested) (hplaces : t.places.Perm s.places) :
    t.Named where
  nodup := by rw [names, hsubmitted, hcalls]; exact hs.nodup
  requested := by rw [names, hsubmitted, hcalls, hrequested]; exact hs.requested
  places := by rw [names, hsubmitted]; exact hplaces.trans hs.places

/-- The steps that move no name: what is evaluated stays the same. -/
theorem Named.stay {s t : Host ν} (hs : s.Named) (hcalls : t.calls = s.calls)
    (hsubmitted : t.history.submitted = s.history.submitted)
    (hrequested : t.history.requested = s.history.requested)
    (hqueue : t.bitstreamQueue = s.bitstreamQueue)
    (heval : t.run.evaluating = s.run.evaluating) (hresults : t.results = s.results)
    (hhanded : t.handed = s.handed) : t.Named := by
  refine hs.frame hcalls hsubmitted hrequested ?_
  rw [Host.places, Host.places, hqueue, heval, hresults, hhanded]

/-- The loop over the chunks leaves its bitstream under evaluation. -/
theorem Named.uploadFrom {s s' : Host ν} (hs : s.Named) {b : Bitstream}
    (hrun : s.run.evaluating = some b) (hcalls : s'.calls = s.calls)
    (hhistory : s'.history = s.history) (hqueue : s'.bitstreamQueue = s.bitstreamQueue)
    (hresults : s'.results = s.results) (hhanded : s'.handed = s.handed) (data : List UInt8)
    (i : ℕ) :
    (s'.uploadFrom b data i).Named := by
  rw [Host.uploadFrom]
  split
  · exact hs.stay hcalls (by rw [hhistory]) (by rw [hhistory]) hqueue hrun.symm hresults hhanded
  · exact hs.stay hcalls (by rw [hhistory]) (by rw [hhistory]) hqueue hrun.symm hresults hhanded

variable {search : δ → List (Signal ν)}

/-- The name under evaluation is not recorded yet. -/
theorem Named.not_mem_keys {s : Host ν} (hs : s.Named) {b : Bitstream}
    (hrun : s.run.evaluating = some b) :
    b.name ∉ s.results.keys ∧ ∀ event ∈ s.handed, b.name ∉ event.keys := by
  have hnodup := hs.nodup_places
  rw [Host.places, hrun, Option.toList_some, List.map_singleton, List.append_assoc,
    List.append_assoc] at hnodup
  obtain ⟨-, hrest, -⟩ := List.nodup_append.mp hnodup
  have hnot : b.name ∉ s.results.keys ++ s.handed.flatMap Table.keys := (List.nodup_cons.mp hrest).1
  exact ⟨fun h => hnot (List.mem_append_left _ h),
    fun event he h => hnot (List.mem_append_right _ (List.mem_flatMap.mpr ⟨event, he, h⟩))⟩

theorem Named.request {s : Host ν} (hs : s.Named) {paths : List ℕ} {files : Files}
    (hnew : ∀ name ∈ files.keys, name ∉ s.history.requested) :
    Named { s with
      calls := s.calls ++ [⟨paths, files, 0⟩]
      history :=
        { s.history with
          requested := s.history.requested ++ files.keys
          issued := s.history.issued ++ paths } } := by
  have hcalls : (s.names ++ (s.calls ++ [(⟨paths, files, 0⟩ : Call)]).flatMap
      fun c => c.files.keys) =
      s.names ++ (s.calls.flatMap fun c => c.files.keys) ++ files.keys := by
    rw [List.flatMap_append, List.flatMap_singleton, List.append_assoc]
  refine ⟨?_, ?_, hs.places⟩
  · show (s.names ++ (s.calls ++ [(⟨paths, files, 0⟩ : Call)]).flatMap
      fun c => c.files.keys).Nodup
    rw [hcalls]
    refine List.nodup_append.mpr ⟨hs.nodup, files.nodup, fun x hx y hy heq => ?_⟩
    exact hnew y hy (heq ▸ hs.requested hx)
  · show s.names ++ (s.calls ++ [(⟨paths, files, 0⟩ : Call)]).flatMap
      (fun c => c.files.keys) ⊆ s.history.requested ++ files.keys
    rw [hcalls]
    exact List.append_subset.mpr ⟨fun x hx => List.mem_append_left _ (hs.requested hx),
      List.subset_append_right _ _⟩

theorem Named.write {s : Host ν} (hs : s.Named) {k path : ℕ} {c : Call} {bytes : List UInt8}
    (hk : s.calls[k]? = some c) :
    Named { s with
      files := Function.update s.files path (some bytes)
      calls := s.calls.set k { c with written := c.written + 1 } } := by
  have hcalls : (s.calls.set k { c with written := c.written + 1 }).flatMap
      (fun c => c.files.keys) = s.calls.flatMap fun c => c.files.keys := by
    rw [List.flatMap_def, List.flatMap_def, map_set_of_eq hk]
    rfl
  refine ⟨?_, ?_, hs.places⟩
  · show (s.names ++ (s.calls.set k { c with written := c.written + 1 }).flatMap _).Nodup
    rw [hcalls]
    exact hs.nodup
  · show s.names ++ (s.calls.set k { c with written := c.written + 1 }).flatMap _ ⊆ _
    rw [hcalls]
    exact hs.requested

theorem Named.raise {s : Host ν} (hs : s.Named) {k path : ℕ} {bytes : List UInt8} :
    Named { s with
      files := Function.update s.files path (some bytes)
      calls := s.calls.eraseIdx k } := by
  have hsub : (s.names ++ (s.calls.eraseIdx k).flatMap fun c => c.files.keys).Sublist
      (s.names ++ s.calls.flatMap fun c => c.files.keys) :=
    ((List.eraseIdx_sublist _ _).flatMap _).append_left _
  exact ⟨hs.nodup.sublist hsub, fun x hx => hs.requested (hsub.subset hx), hs.places⟩

theorem Named.append {s : Host ν} (hs : s.Named) {k : ℕ} {c : Call} (hk : s.calls[k]? = some c)
    (hlen : c.paths.length = c.files.rows.length) :
    Named { s with
      bitstreamQueue := s.bitstreamQueue ++ c.bitstreams
      calls := s.calls.eraseIdx k
      history := { s.history with submitted := s.history.submitted ++ c.entries } } := by
  have hkeys : c.entries.map (fun e => e.1.name) = c.files.keys := Call.map_name_entries hlen
  have hnames : (s.history.submitted ++ c.entries).map (fun e => e.1.name) =
      s.names ++ c.files.keys := by
    rw [List.map_append, hkeys, names]
  have hqueue : c.bitstreams.map Bitstream.name = c.files.keys := by
    rw [Call.bitstreams_eq, List.map_map]
    exact hkeys
  have hperm : (s.names ++ c.files.keys ++ (s.calls.eraseIdx k).flatMap
      fun c => c.files.keys).Perm (s.names ++ s.calls.flatMap fun c => c.files.keys) := by
    have h := (perm_cons_eraseIdx hk).flatMap_right fun c : Call => c.files.keys
    rw [List.flatMap_cons] at h
    rw [List.append_assoc]
    exact h.symm.append_left _
  refine ⟨?_, ?_, ?_⟩
  · rw [names, hnames]
    exact hperm.nodup_iff.mpr hs.nodup
  · rw [names, hnames]
    exact fun x hx => hs.requested (hperm.subset hx)
  · rw [names, hnames, Host.places]
    refine List.Perm.trans ?_ (hs.places.append_right c.files.keys)
    -- the new names come behind those in the queue
    simp only [Host.places, List.map_append, hqueue, List.append_assoc]
    refine List.Perm.append_left _ ?_
    refine List.perm_append_comm.trans ?_
    simp only [List.append_assoc]
    exact List.Perm.refl _

/-- **Every step moves a name from one place to the next.** -/
theorem named_step {s t : Host ν} {i : HostInput δ} (hf : s.Filed) (hs : s.Named)
    (hc : Contract search s i) (h : s.step search i = some t) : t.Named := by
  cases rule_of_step h with
  | request hlen hnodup hfresh => exact hs.request hc
  | write hk hc' hd => exact hs.write hk
  | raise hk hc' => exact hs.raise
  | append hk hc' => exact hs.append hk (hf.lengths _ (List.mem_of_getElem? hk))
  | loop hrun =>
    have heval : s.run.evaluating = none := by rw [hrun, Run.evaluating]
    exact hs.stay rfl rfl rfl rfl heval.symm rfl rfl
  | leave hrun =>
    have heval : s.run.evaluating = none := by
      rcases hrun with hloop | htake | ⟨b, hread, hfile⟩
      · rw [hloop, Run.evaluating]
      · rw [htake, Run.evaluating]
      · -- the file of a bitstream under evaluation is there
        have hb : b ∈ s.pending := by
          rw [pending, hread]
          exact List.mem_append_right _ List.mem_cons_self
        obtain ⟨bytes, -, hsome⟩ := hf.filed b hb
        rw [hfile] at hsome
        cases hsome
    exact hs.stay rfl rfl rfl rfl heval.symm rfl rfl
  | @take b hrun hb =>
    have hqueue : s.bitstreamQueue.dropLast.map Bitstream.name ++ [b.name] =
        s.bitstreamQueue.map Bitstream.name := by
      rw [← List.map_singleton (f := Bitstream.name), ← List.map_append,
        List.dropLast_append_getLast? b hb]
    refine hs.frame rfl rfl rfl ?_
    rw [Host.places, Host.places, hrun]
    show (s.bitstreamQueue.dropLast.map Bitstream.name ++ [b.name] ++ s.results.keys ++ _).Perm
      (s.bitstreamQueue.map Bitstream.name ++ [] ++ s.results.keys ++ _)
    rw [hqueue, List.append_nil]
  | @read b data hrun hfile =>
    have heval : s.run.evaluating = some b := by rw [hrun, Run.evaluating]
    exact hs.stay rfl rfl rfl rfl heval.symm rfl rfl
  | ready hrun hr =>
    refine hs.uploadFrom ?_ ?_ ?_ ?_ ?_ ?_ _ _
    · rw [hrun, Run.evaluating]
    all_goals rfl
  | chunk hrun =>
    refine hs.uploadFrom ?_ ?_ ?_ ?_ ?_ ?_ _ _
    · rw [hrun, Run.evaluating]
    all_goals rfl
  | @pulse b result reader hrun hr =>
    have heval : s.run.evaluating = some b := by rw [hrun, Run.evaluating]
    exact hs.stay rfl rfl rfl rfl heval.symm rfl rfl
  | @requeue b hrun =>
    refine hs.frame rfl rfl rfl ?_
    rw [Host.places, Host.places, hrun]
    show ((s.bitstreamQueue ++ [b]).map Bitstream.name ++ [] ++ s.results.keys ++ _).Perm
      (s.bitstreamQueue.map Bitstream.name ++ [b.name] ++ s.results.keys ++ _)
    rw [List.map_append, List.map_singleton, List.append_nil]
  | @store b n hrun =>
    have heval : s.run.evaluating = some b := by rw [hrun, Run.evaluating]
    refine hs.frame rfl rfl rfl ?_
    rw [Host.places, Host.places, heval]
    show (s.bitstreamQueue.map Bitstream.name ++ [] ++ (s.results.put (b.name, n)).keys ++ _).Perm
      (s.bitstreamQueue.map Bitstream.name ++ [b.name] ++ s.results.keys ++ _)
    rw [Table.keys_put (hs.not_mem_keys heval).1, List.append_nil, List.append_assoc _ [b.name]]
    exact (List.perm_append_comm.append_left _).append_right _
  | remove hrun =>
    have heval : s.run.evaluating = none := by rw [hrun, Run.evaluating]
    exact hs.stay rfl rfl rfl rfl heval.symm rfl rfl
  | send hrun hqueue =>
    refine hs.frame rfl rfl rfl ?_
    rw [Host.places, Host.places, hrun, hqueue]
    show ((s.handed ++ [s.results]).flatMap Table.keys).Perm
      (s.results.keys ++ s.handed.flatMap Table.keys)
    rw [List.flatMap_append, List.flatMap_singleton]
    exact List.perm_append_comm
  | keep hrun =>
    have heval : s.run.evaluating = none := by rw [hrun, Run.evaluating]
    exact hs.stay rfl rfl rfl rfl heval.symm rfl rfl
  | receive hr => exact hs.stay rfl rfl rfl rfl rfl rfl rfl
  | signal hr => exact hs.stay rfl rfl rfl rfl rfl rfl rfl
  | exit => exact hs.stay rfl rfl rfl rfl rfl rfl rfl
  | joinRun hrun => exact hs.stay rfl rfl rfl rfl rfl rfl rfl

/-! ### Uploads and answers -/

/-- Between a number of uploads and the answers to them: all are answered and
the answers taken, except for the last one where the run thread waits for it; the
answer may then be on its way through the reader. -/
def Exchange (r : Run ν) (uploads : ℕ) (answers held : List (Answer ν)) : Prop :=
  match r with
  | .waitUntilPulse _ =>
    (uploads = answers.length + 1 ∧ held = []) ∨
      (uploads = answers.length ∧ ∃ a, held = [a] ∧ answers.getLast? = some a)
  | .judge _ result =>
    uploads = answers.length ∧ held = [] ∧ ∃ a, result = some a ∧ answers.getLast? = some a
  | _ => uploads = answers.length ∧ held = []

theorem Exchange.length_held {r : Run ν} {uploads : ℕ} {answers held : List (Answer ν)}
    (h : Exchange r uploads answers held) : held.length ≤ 1 := by
  rw [Exchange.eq_def] at h
  split at h
  · rcases h with ⟨-, rfl⟩ | ⟨-, a, rfl, -⟩
    · exact Nat.zero_le 1
    · exact Nat.le_refl 1
  · rw [h.2.1]
    exact Nat.zero_le 1
  · rw [h.2]
    exact Nat.zero_le 1

/-- Reading as many answers as there are uploads without one. -/
theorem Exchange.receive {r : Run ν} {uploads : ℕ} {answers held new : List (Answer ν)}
    (h : Exchange r uploads answers held) (hnew : answers.length + new.length ≤ uploads) :
    Exchange r uploads (answers ++ new) (held ++ new) := by
  rw [Exchange.eq_def] at h ⊢
  have hnil : uploads = answers.length → new = [] := fun heq =>
    List.length_eq_zero_iff.mp (by omega)
  split at h
  · rcases h with ⟨hlen, rfl⟩ | ⟨hlen, a, rfl, hlast⟩
    · cases new with
      | nil => exact Or.inl ⟨by rw [List.append_nil, hlen], rfl⟩
      | cons a new =>
        have hone : new = [] := by
          rw [List.length_cons] at hnew
          exact List.length_eq_zero_iff.mp (by omega)
        subst hone
        refine Or.inr ⟨?_, a, rfl, List.getLast?_concat⟩
        rw [List.length_append, List.length_singleton, hlen]
    · obtain rfl := hnil hlen
      rw [List.append_nil, List.append_nil]
      exact Or.inr ⟨hlen, a, rfl, hlast⟩
  · obtain rfl := hnil h.1
    rw [List.append_nil, List.append_nil]
    exact h
  · obtain rfl := hnil h.1
    rw [List.append_nil, List.append_nil]
    exact h

/-- **At most one answer is on its way**, and the reader does not exit before the
run thread has ended. -/
structure Exchanges (s : Host ν) : Prop where
  exiting : s.reader.exiting = true → s.run = .ended
  exchange : Exchange s.run s.history.uploads.length s.history.answers s.reader.held

theorem exchanges_start : (start : Host ν).Exchanges where
  exiting := nofun
  exchange := ⟨rfl, rfl⟩

theorem exchange_uploadFrom {s : Host ν}
    (hlen : s.history.uploads.length = s.history.answers.length) (hheld : s.reader.held = [])
    (b : Bitstream) (data : List UInt8) (i : ℕ) :
    Exchange (s.uploadFrom b data i).run (s.uploadFrom b data i).history.uploads.length
      (s.uploadFrom b data i).history.answers (s.uploadFrom b data i).reader.held := by
  rw [uploadFrom]
  split
  · exact ⟨hlen, hheld⟩
  · refine Or.inl ⟨?_, hheld⟩
    rw [List.length_append, List.length_singleton, hlen]

theorem exchanges_step {s t : Host ν} {i : HostInput δ} (hs : s.Exchanges)
    (hc : Contract search s i) (h : s.step search i = some t) : t.Exchanges := by
  refine ⟨ended_of_exiting_step hs.exiting h, ?_⟩
  have hexch := hs.exchange
  cases rule_of_step h with
  | loop hrun => rwa [hrun] at hexch
  | leave hrun =>
    rcases hrun with hloop | htake | ⟨b, hread, -⟩
    · rwa [hloop] at hexch
    · rwa [htake] at hexch
    · rwa [hread] at hexch
  | take hrun hb => rwa [hrun] at hexch
  | read hrun hfile => rwa [hrun] at hexch
  | ready hrun hr =>
    rw [hrun] at hexch
    refine exchange_uploadFrom ?_ ?_ _ _ _
    · exact hexch.1
    · exact (Reader.waitUntilReady_spec hr).1.trans hexch.2
  | chunk hrun =>
    rw [hrun] at hexch
    refine exchange_uploadFrom ?_ ?_ _ _ _
    · exact hexch.1
    · exact hexch.2
  | @pulse b result reader hrun hr =>
    obtain ⟨-, hheld, hnone⟩ := Reader.waitUntilPulse_spec hr
    rw [hrun] at hexch
    cases result with
    | none => exact absurd (hrun.symm.trans (hs.exiting (hnone rfl))) nofun
    | some a =>
      -- the answer taken is the one on its way
      rcases hexch with ⟨-, hnil⟩ | ⟨hlen, a', hone, hlast⟩
      · rw [hheld] at hnil
        cases hnil
      · rw [hheld, Option.toList_some, List.singleton_append] at hone
        obtain ⟨rfl, hrest⟩ := List.cons.inj hone
        exact ⟨hlen, hrest, a, rfl, hlast⟩
  | requeue hrun =>
    rw [hrun] at hexch
    exact ⟨hexch.1, hexch.2.1⟩
  | store hrun =>
    rw [hrun] at hexch
    exact ⟨hexch.1, hexch.2.1⟩
  | remove hrun => rwa [hrun] at hexch
  | send hrun hqueue => rwa [hrun] at hexch
  | keep hrun => rwa [hrun] at hexch
  | receive hr =>
    show Exchange s.run _ (s.history.answers ++ answers _) _
    rw [(Reader.receive_spec hr).1]
    exact hexch.receive hc
  | signal hr =>
    rw [Reader.held_step hr hexch.length_held]
    exact hexch
  | _ => exact hexch

/-! ### What is recorded -/

/-- The value recorded for a name is the count that answered the last upload of
the bytes submitted under that name. -/
def Recorded (s : Host ν) (name : String) (value : Option ν) : Prop :=
  ∃ b bytes n i, b.name = name ∧ s.Submitted b bytes ∧
    s.history.uploads[i]? = some (b, bytes) ∧
    s.history.answers[i]? = some (Answer.pulses n) ∧
    value = some n ∧ ∀ (j : ℕ) (u : Bitstream × List UInt8),
      s.history.uploads[j]? = some u → u.1.name = name → j ≤ i

/-- A row of `results`, or of what was handed over. -/
def Row (s : Host ν) (row : String × Option ν) : Prop :=
  row ∈ s.results ∨ ∃ event ∈ s.handed, row ∈ event

theorem Recorded.mono {s t : Host ν} {name : String} {value : Option ν}
    (hs : s.Recorded name value) (hsubmitted : s.history.submitted ⊆ t.history.submitted)
    (hanswers : s.history.answers <+: t.history.answers) {l : List (Bitstream × List UInt8)}
    (huploads : t.history.uploads = s.history.uploads ++ l) (hl : ∀ u ∈ l, u.1.name ≠ name) :
    t.Recorded name value := by
  obtain ⟨b, bytes, n, i, hname, hbytes, hu, ha, hvalue, hlast⟩ := hs
  obtain ⟨l', hanswers⟩ := hanswers
  refine ⟨b, bytes, n, i, hname, hbytes.mono hsubmitted, ?_, ?_, hvalue, ?_⟩
  · rw [huploads, List.getElem?_append_left (List.getElem?_eq_some_iff.mp hu).1, hu]
  · rw [← hanswers, List.getElem?_append_left (List.getElem?_eq_some_iff.mp ha).1, ha]
  · intro j u hj huname
    rw [huploads] at hj
    rcases Nat.lt_or_ge j s.history.uploads.length with hlt | hge
    · rw [List.getElem?_append_left hlt] at hj
      exact hlast j u hj huname
    · rw [List.getElem?_append_right hge] at hj
      exact absurd huname (hl u (List.mem_of_getElem? hj))

/-- What a step adds to the history: the upload it completes is of the bitstream
under evaluation. -/
theorem history_step {s t : Host ν} {i : HostInput δ} (h : s.step search i = some t) :
    s.history.answers <+: t.history.answers ∧
      ∃ l, t.history.uploads = s.history.uploads ++ l ∧
        ∀ u ∈ l, s.run.evaluating = some u.1 := by
  have hsame : ∃ l, s.history.uploads = s.history.uploads ++ l ∧
      ∀ u ∈ l, s.run.evaluating = some u.1 :=
    ⟨[], (List.append_nil _).symm, fun u hu => absurd hu List.not_mem_nil⟩
  have hupload : ∀ (s' : Host ν) (b : Bitstream) (data : List UInt8) (i : ℕ),
      s'.history = s.history → s.run.evaluating = some b →
      s.history.answers <+: (s'.uploadFrom b data i).history.answers ∧
        ∃ l, (s'.uploadFrom b data i).history.uploads = s.history.uploads ++ l ∧
          ∀ u ∈ l, s.run.evaluating = some u.1 := by
    intro s' b data i hhistory hrun
    rw [uploadFrom]
    split
    · exact ⟨hhistory ▸ List.prefix_rfl, hhistory ▸ hsame⟩
    · refine ⟨hhistory ▸ List.prefix_rfl, [(b, s'.wire)], by rw [hhistory], fun u hu => ?_⟩
      rw [List.mem_singleton.mp hu, hrun]
  cases rule_of_step h with
  | ready hrun hr =>
    refine hupload _ _ _ _ ?_ ?_
    · rfl
    · rw [hrun, Run.evaluating]
  | chunk hrun =>
    refine hupload _ _ _ _ ?_ ?_
    · rfl
    · rw [hrun, Run.evaluating]
  | receive hr => exact ⟨List.prefix_append _ _, hsame⟩
  | _ => exact ⟨List.prefix_rfl, hsame⟩

/-- The rows after a step were there before it, or the step stored one. -/
theorem row_step {s t : Host ν} {i : HostInput δ} (h : s.step search i = some t)
    {row : String × Option ν} (hrow : t.Row row) :
    s.Row row ∨ ∃ b n, s.run = .judge b (n.map .pulses) ∧ t = s.store b n ∧ row = (b.name, n) := by
  cases rule_of_step h with
  | ready hrun hr =>
    obtain ⟨run, uploads, heq⟩ := uploadFrom_eq _ _ _ _
    rw [heq] at hrow
    exact Or.inl hrow
  | chunk hrun =>
    obtain ⟨run, uploads, heq⟩ := uploadFrom_eq _ _ _ _
    rw [heq] at hrow
    exact Or.inl hrow
  | @store b n hrun =>
    rcases hrow with hresult | hhanded
    · rcases Table.mem_put.mp hresult with rfl | ⟨hold, -⟩
      · exact Or.inr ⟨b, n, hrun, rfl, rfl⟩
      · exact Or.inl (Or.inl hold)
    · exact Or.inl (Or.inr hhanded)
  | send hrun hqueue =>
    rcases hrow with hresult | ⟨event, hevent, hrow⟩
    · exact absurd hresult (Table.not_mem_empty _)
    · rcases List.mem_append.mp hevent with hold | hnew
      · exact Or.inl (Or.inr ⟨event, hold, hrow⟩)
      · obtain rfl := List.mem_singleton.mp hnew
        exact Or.inl (Or.inl hrow)
  | _ => exact Or.inl hrow

/-- A count about to be stored answered the last upload, which was of the bitstream
it is stored for. -/
theorem answered_last {s : Host ν} (hcarried : s.Carried) (hexchanges : s.Exchanges)
    {b : Bitstream} {n : Option ν} (hrun : s.run = .judge b (n.map .pulses)) :
    ∃ bytes n', s.Submitted b bytes ∧
      s.history.uploads[s.history.uploads.length - 1]? = some (b, bytes) ∧
      s.history.answers[s.history.uploads.length - 1]? = some (Answer.pulses n') ∧
      n = some n' := by
  obtain ⟨hlen, -, a, hn, ha⟩ : s.history.uploads.length = s.history.answers.length ∧
      s.reader.held = [] ∧ ∃ a, n.map Answer.pulses = some a ∧
        s.history.answers.getLast? = some a := by
    have h := hexchanges.exchange
    rwa [hrun] at h
  obtain ⟨bytes, hu⟩ : ∃ bytes, s.history.uploads.getLast? = some (b, bytes) := by
    have h := hcarried.carries
    rwa [Carries, hrun] at h
  obtain ⟨n', rfl, rfl⟩ := Option.map_eq_some_iff.mp hn
  rw [List.getLast?_eq_getElem?] at ha hu
  refine ⟨bytes, n', hcarried.uploads _ (List.mem_of_getElem? hu), hu, ?_, rfl⟩
  rw [hlen]
  exact ha

/-- The invariant of an evaluation. -/
structure Inv (s : Host ν) : Prop where
  filed : s.Filed
  carried : s.Carried
  named : s.Named
  exchanges : s.Exchanges
  recorded : ∀ row, s.Row row → s.Recorded row.1 row.2

theorem inv_start : (start : Host ν).Inv where
  filed := filed_start
  carried := carried_start
  named := named_start
  exchanges := exchanges_start
  recorded := fun row hrow => by
    rcases hrow with hresult | ⟨event, hevent, -⟩
    · exact absurd hresult (Table.not_mem_empty _)
    · exact absurd hevent List.not_mem_nil

/-- A count that is stored answered the last upload. -/
theorem Inv.recorded_store {s : Host ν} (hs : s.Inv) {b : Bitstream} {n : Option ν}
    (hrun : s.run = .judge b (n.map .pulses)) : (s.store b n).Recorded b.name n := by
  obtain ⟨bytes, n', hbytes, hu, ha, rfl⟩ := answered_last hs.carried hs.exchanges hrun
  refine ⟨b, bytes, n', s.history.uploads.length - 1, rfl, hbytes, hu, ha, rfl,
    fun j u hj _ => ?_⟩
  have hlt : j < s.history.uploads.length := (List.getElem?_eq_some_iff.mp hj).1
  omega

theorem inv_step {s t : Host ν} {i : HostInput δ} (hs : s.Inv) (hc : Contract search s i)
    (h : s.step search i = some t) : t.Inv where
  filed := filed_step hs.filed h
  carried := carried_step hs.filed hs.carried h
  named := named_step hs.filed hs.named hc h
  exchanges := exchanges_step hs.exchanges hc h
  recorded := fun row hrow => by
    rcases row_step h hrow with hold | ⟨b, n, hrun, rfl, rfl⟩
    · obtain ⟨hanswers, l, huploads, hl⟩ := history_step h
      refine (hs.recorded row hold).mono (submitted_step h) hanswers huploads fun u hu => ?_
      -- the name of the upload that is completed is not recorded yet
      obtain ⟨hresults, hhanded⟩ := hs.named.not_mem_keys (hl u hu)
      intro hname
      rcases hold with hresult | ⟨event, hevent, hmem⟩
      · exact hresults (hname ▸ Table.key_mem_keys hresult)
      · exact hhanded event hevent (hname ▸ Table.key_mem_keys hmem)
    · exact hs.recorded_store hrun

/-- Where results are handed over there are some. -/
def Collected (s : Host ν) : Prop :=
  s.run = .finish ∨ (∃ b, s.run = .remove b) → s.results.rows ≠ []

theorem collected_of_ne {s : Host ν} (hfinish : s.run ≠ .finish)
    (hremove : ∀ b, s.run ≠ .remove b) : s.Collected := by
  rintro (h | ⟨b, h⟩)
  · exact absurd h hfinish
  · exact absurd h (hremove b)

theorem collected_step {s t : Host ν} {i : HostInput δ} (hs : s.Collected)
    (h : s.step search i = some t) : t.Collected := by
  cases rule_of_step h with
  | ready hrun hr | chunk hrun =>
    rw [uploadFrom]
    split
    · exact collected_of_ne (by simp) (by simp)
    · exact collected_of_ne (by simp) (by simp)
  | @store b n hrun => exact fun _ => List.ne_nil_of_mem (Table.mem_put.mpr (Or.inl rfl))
  | remove hrun => exact fun _ => hs (Or.inr ⟨_, hrun⟩)
  | loop | leave | take | read | pulse | requeue | send | keep =>
    exact collected_of_ne (by simp) (by simp)
  | request | write | raise | append | receive | signal | exit | joinRun => exact hs

/-! ### A run -/

/-- Two bitstreams of one byte each. -/
def twoFiles : Files := ⟨[("a", "x"), ("b", "y")], by decide⟩

/-- What the run thread does about a bitstream of one chunk, when it finds the
device ready: up to the upload, then, once the reader has read an answer and the
announcement that the device is ready, up to recording the answer. -/
def evaluated (text : String) : List (HostInput (List Char)) :=
  [.run, .run, .run, .run, .run, .receive text.toList, .read, .read,
    .receive "Waiting for bitstream transfer\r\n".toList, .read, .read, .run, .run]

/-- `b` is taken first; its first upload times out. Both counts are sent in one
event. -/
def retried : List (HostInput (List Char)) :=
  [.request [1, 2] twoFiles, .queue 0, .queue 0, .queue 0] ++
    evaluated "Watchdog timeout, 0 bytes received of 104090\r\n" ++
    evaluated "\r\n, pulses: 42\r\n" ++ [.run, .run] ++
    evaluated "\r\n, pulses: 7\r\n" ++ [.run, .run]

/-- What has come of the requests. -/
structure Outcome where
  /-- The rows of the results events. -/
  events : List (List (String × Option (List Char)))
  names : List String
  deriving DecidableEq

def outcome (s : Host (List Char)) : Outcome := ⟨s.handed.map Table.rows, s.names⟩

end Host

end UsbipIce.PulseCount
