import UsbipIce.PulseCount.Evaluation
import UsbipIce.PulseCount.Results

/-!
# Where a queued bitstream is

The run thread takes a bitstream from `bitstream_queue`, evaluates it, collects its
count in `results`, and hands these to `finished` when nothing queued remains. So a
queued name should always be in exactly one place: in the queue, under evaluation, in
`results`, or in a results event that has been appended to the session of the client
(`UsbipIce.PulseCount.Board.Evaluates`).

It is, as long as every call of `finished` can serialise its event and finds a client
that holds the device (`UsbipIce.PulseCount.Board.evaluates_iff`). Otherwise no event
is sent, and the results are forgotten all the same: the names are in no place at all
(`UsbipIce.PulseCount.Board.unreserved_unplaced`).
-/

namespace UsbipIce.PulseCount

open Lib Database

namespace Board

variable {ν δ S : Type*}

/-! ### Places -/

/-- The results events that have been appended to the queue of a session. -/
def events (s : Board ν S) : List (Results ν) :=
  (s.finished.filter fun c => c.queued ≠ 0).map Finished.results

/-- The names in `bitstream_queue`, under evaluation, in `results` and in the results
events sent, one entry for each place. -/
def places (s : Board ν S) : List String :=
  s.host.bitstreamQueue.map Bitstream.name ++
    s.host.run.evaluating.toList.map Bitstream.name ++ s.host.results.keys ++
      s.events.flatMap Table.keys

/-- A row of `results`, or of a results event. -/
def Row (s : Board ν S) (row : String × Option ν) : Prop :=
  row ∈ s.host.results ∨ ∃ event ∈ s.events, row ∈ event

/-- The call has appended its event, with its own results, to the session of the client
that held the device. -/
def Sent (dumps : Package (EventValue ν) → Option String) (serial : String) (c : Finished ν) :
    Prop :=
  ∃ client text, c.holder = some client ∧
    dumps ⟨serial, ⟨[("event", .text "results"), ("results", .results c.results),
      ("serial", .text serial)], by simp⟩⟩ = some text ∧
    c.queued = {(client, text)}

/-- **The outside keeps to the contract** of the `PulseCountState`. -/
def Contract (search : δ → List (Signal ν)) (s : Board ν S) : BoardInput δ S → Prop
  | .host i => Host.Contract search s.host i
  | .sender _ | .finished _ | .sendClient => True

instance (search : δ → List (Signal ν)) (s : Board ν S) :
    (i : BoardInput δ S) → Decidable (Contract search s i)
  | .host i => inferInstanceAs (Decidable (Host.Contract search s.host i))
  | .sender _ | .finished _ | .sendClient => isTrue trivial

variable [DecidableEq S] (dumps : Package (EventValue ν) → Option String) (serial : String)
  (search : δ → List (Signal ν))

/-- **What evaluating a bitstream is for.** -/
structure Evaluates (s : Board ν S) : Prop where
  /-- Every queued name is in exactly one place. -/
  placed : ∀ name ∈ s.host.names, s.places.count name = 1
  sent : ∀ c ∈ s.finished, c.queued ≠ 0 → Sent dumps serial c
  /-- The value recorded for a name answered the last upload of its bytes. -/
  recorded : ∀ name value, s.Row (name, value) → s.host.Recorded name value
  /-- A results event is sent only when no queued bitstream remains. -/
  idle : ∀ i t, s.step dumps serial search i = some t → t.events ≠ s.events →
    s.host.bitstreamQueue = [] ∧ s.host.run.evaluating = none

variable {dumps serial search} {s t : Board ν S}

/-! ### What is lost -/

variable (dumps serial) in
/-- The invariant of the board, and that of the evaluation. -/
structure Evaluating (s : Board ν S) : Prop where
  inv : s.Inv dumps serial
  host : s.host.Inv
  collected : s.host.Collected
  /-- No call of `finished` was given nothing. -/
  given : ∀ c ∈ s.finished, c.results.rows ≠ []

omit [DecidableEq S] in
theorem evaluating_start : (start : Board ν S).Evaluating dumps serial where
  inv := inv_start
  host := Host.inv_start
  collected := Host.collected_of_ne (by simp [start, Host.start]) (by simp [start, Host.start])
  given := fun _ h => absurd h List.not_mem_nil

/-- The contract is kept where the host takes part. -/
theorem contract_host {i : BoardInput δ S} (hc : Contract search s i)
    (h : s.step dumps serial search i = some t) :
    t.host = s.host ∨
      ∃ j, Host.Contract search s.host j ∧ s.host.step search j = some t.host := by
  obtain hsame | ⟨j, hij, hj⟩ := host_step h
  · exact Or.inl hsame
  · refine Or.inr ⟨j, ?_, hj⟩
    rcases hij with rfl | rfl
    · exact hc
    · trivial

omit [DecidableEq S] in
theorem Ends.results {i : BoardInput δ S} {c : Finished ν} (h : Ends dumps serial s i c) :
    c.results = s.host.results := by
  cases h with
  | at_once hcall hclient => rfl
  | appended hresults hreturned hholder hcontents hqueued => exact hresults

theorem evaluating_step {i : BoardInput δ S} (hs : s.Evaluating dumps serial)
    (hc : Contract search s i) (h : s.step dumps serial search i = some t) :
    t.Evaluating dumps serial := by
  obtain ⟨hinv, hfinished⟩ := inv_step hs.inv h
  have hgiven : ∀ c ∈ t.finished, c.results.rows ≠ [] := by
    obtain ⟨hsame, -⟩ | ⟨c, hnew, hat, hends⟩ := hfinished
    · rw [hsame]
      exact hs.given
    · rw [hnew, List.forall_mem_append, List.forall_mem_singleton, hends.results]
      exact ⟨hs.given, hs.collected (Or.inl hat.1)⟩
  obtain hsame | ⟨j, hcj, hj⟩ := contract_host hc h
  · exact ⟨hinv, hsame ▸ hs.host, hsame ▸ hs.collected, hgiven⟩
  · exact ⟨hinv, Host.inv_step hs.host hcj hj, Host.collected_step hs.collected hj, hgiven⟩

omit [DecidableEq S] in
/-- A call that returns has appended its event exactly if it found what it needs. -/
theorem Ends.queued_iff {i : BoardInput δ S} {c : Finished ν} (h : Ends dumps serial s i c)
    (hat : AtFinished s.host) : c.queued ≠ 0 ↔ Found dumps serial s i := by
  cases h with
  | @at_once db hcall hclient =>
    refine iff_of_false (fun hne => hne rfl) fun hfound => ?_
    obtain ⟨⟨text, htext, hdumps⟩, client, hne, hholder⟩ := hfound hcall hat
    obtain ⟨-, -, hempty⟩ | ⟨-, -, -, hnone⟩ | ⟨client', text', hsome, -⟩ :=
      perform_cases dumps serial s.host.results db
    · exact htext (hempty text hdumps)
    · exact hne (hnone client hholder)
    · rw [hclient] at hsome
      cases hsome
  | appended hresults hreturned hholder hcontents hqueued =>
    rw [hqueued]
    exact iff_of_true (Multiset.singleton_ne_zero _) trivial

/-- **One step**: every call that has returned has appended its event after it, if they
had before and the call finds what it needs. -/
theorem queued_step {i : BoardInput δ S} (hinv : s.Inv dumps serial)
    (h : s.step dumps serial search i = some t) :
    (∀ c ∈ t.finished, c.queued ≠ 0) ↔
      (∀ c ∈ s.finished, c.queued ≠ 0) ∧ Found dumps serial s i := by
  obtain ⟨-, ⟨hsame, hfound⟩ | ⟨c, hnew, hat, hends⟩⟩ := inv_step hinv h
  · rw [hsame]
    exact (and_iff_left hfound).symm
  · rw [hnew, List.forall_mem_append, List.forall_mem_singleton, hends.queued_iff hat]

omit [DecidableEq S] in
/-- What was handed over is in the events sent, or lost. -/
theorem places_perm (hs : s.Inv dumps serial) :
    s.host.places.Perm (s.places ++ ((s.finished.filter fun c => !decide (c.queued ≠ 0)).map
      Finished.results).flatMap Table.keys) := by
  have hsplit := ((List.filter_append_perm (fun c : Finished ν => decide (c.queued ≠ 0))
    s.finished).symm.map Finished.results).flatMap_right Table.keys
  rw [List.map_append, List.flatMap_append] at hsplit
  rw [Host.places, places, hs.handed, List.append_assoc _ (s.events.flatMap _)]
  exact hsplit.append_left _

omit [DecidableEq S] in
/-- Where every name is in one place, no call has lost its event. -/
theorem queued_of_placed (hs : s.Evaluating dumps serial)
    (hplaced : ∀ name ∈ s.host.names, s.places.count name = 1) :
    ∀ c ∈ s.finished, c.queued ≠ 0 := by
  intro c hc hnone
  obtain ⟨row, hrow⟩ := List.exists_mem_of_ne_nil _ (hs.given c hc)
  have hperm := places_perm hs.inv
  -- the name is among what is lost, and is in one place as well
  have hlost : row.1 ∈ ((s.finished.filter fun c => !decide (c.queued ≠ 0)).map
      Finished.results).flatMap Table.keys := by
    refine List.mem_flatMap.mpr ⟨c.results, List.mem_map_of_mem ?_, Table.key_mem_keys hrow⟩
    exact List.mem_filter.mpr ⟨hc, by simp [hnone]⟩
  have hname : row.1 ∈ s.host.names :=
    hs.host.named.places.subset (hperm.mem_iff.mpr (List.mem_append_right _ hlost))
  have hplace : row.1 ∈ s.places := List.count_pos_iff.mp (by rw [hplaced _ hname]; omega)
  have hnodup := hperm.nodup_iff.mp hs.host.named.nodup_places
  exact (List.nodup_append.mp hnodup).2.2 _ hplace _ hlost rfl

/-- Where no call has lost its event, the bitstreams are evaluated as they should be. -/
theorem evaluates_of_queued (hs : s.Evaluating dumps serial)
    (hqueued : ∀ c ∈ s.finished, c.queued ≠ 0) : s.Evaluates dumps serial search := by
  have hevents : s.events = s.host.handed := by
    rw [events, hs.inv.handed, List.filter_eq_self.mpr fun c hc => decide_eq_true (hqueued c hc)]
  have hplaces : s.places = s.host.places := by rw [places, hevents, Host.places]
  refine ⟨fun name hname => ?_, fun c hc hne => ?_, fun name value hrow => ?_,
    fun i t h hnew => ?_⟩
  · rw [hplaces]
    exact List.count_eq_one_of_mem hs.host.named.nodup_places
      (hs.host.named.places.mem_iff.mpr hname)
  · obtain ⟨hcontents, hzero | ⟨client, text, hholder, htext, hsent⟩⟩ := hs.inv.told c hc
    · exact absurd hzero hne
    · refine ⟨client, text, hholder, ?_, hsent⟩
      rw [← resultsEvent_eq, ← hcontents, htext]
  · refine hs.host.recorded (name, value) (hrow.imp_right ?_)
    rw [hevents]
    exact id
  · obtain ⟨-, ⟨hsame, -⟩ | ⟨c, -, hat, -⟩⟩ := inv_step hs.inv h
    · exact absurd (by rw [events, events, hsame]) hnew
    · exact ⟨hat.2, by rw [hat.1, Run.evaluating]⟩

/-- **When no bitstream is lost.** In every run in which the names requested are
different and the device answers each complete upload once, whatever else happens in
the event sender: in every state every queued name is in exactly one place, what is
recorded for a name is the count that answered the last upload of its bytes, and a
results event is sent only when no queued bitstream remains, exactly if each call of
`finished` can serialise its event and finds a client with a name. -/
theorem evaluates_iff {is : List (BoardInput δ S)}
    (hc : (machine dumps serial search).Meets (Contract search) start is) :
    (machine dumps serial search).Along (Evaluates dumps serial search) start is ↔
      (machine dumps serial search).Meets (Found dumps serial) start is := by
  refine Machine.along_iff_meets_of_meets (I := Evaluating dumps serial)
    (fun s i t hs hc h => evaluating_step hs hc h) (fun s i t hs hc hP h => ?_) (fun s i _ h => ?_)
    evaluating_start (evaluates_of_queued evaluating_start fun _ h => absurd h List.not_mem_nil) hc
  · have hbefore := queued_of_placed hs hP.placed
    have hiff := (queued_step hs.inv h).trans (and_iff_right hbefore)
    have hs' := evaluating_step hs hc h
    exact ⟨fun hP' => hiff.mp (queued_of_placed hs' hP'.placed),
      fun hfound => evaluates_of_queued hs' (hiff.mpr hfound)⟩
  · match i with
    | .host _ | .sender _ | .sendClient => trivial
    | .finished db =>
      rintro hnone hat
      exact (step_finished_ne_none search hnone hat h).elim

/-! ### Runs -/

/-- The run of `Host.retried`, up to the call of `finished`, for a client that holds the
device. -/
def delivered : List (BoardInput (List Char) Unit) :=
  Host.retried.dropLast.map .host ++ [.finished (some reserved), .sendClient, .sendClient]

/-- What there is to see of the places of a name. -/
structure PlacesView where
  names : List String
  events : List (List (String × Option (List Char)))
  deriving DecidableEq

def placesView (s : Board (List Char) Unit) : PlacesView where
  names := s.host.names
  events := s.events.map Table.rows

theorem delivered_run : (ran delivered).map placesView =
    some ⟨["a", "b"], [[("b", some "42".toList), ("a", some "7".toList)]]⟩ := by
  decide

/-- The one lookup finds the client. -/
theorem delivered_found : (machine (fun _ => some resultsText) "A" signals).Meets
    (Found (fun _ => some resultsText) "A") start delivered := by
  have hdb : ∀ i ∈ delivered, ∀ db, i = .finished db → db = some reserved := by
    rintro i hi db rfl
    rcases List.mem_append.mp hi with hhost | hcall
    · obtain ⟨j, -, hj⟩ := List.mem_map.mp hhost
      cases hj
    · simpa using hcall
  refine (Machine.meets_of_mem hdb start).mono fun s i hi => ?_
  match i with
  | .host _ | .sender _ | .sendClient => trivial
  | .finished db =>
    obtain rfl := hi db rfl
    exact fun _ _ => ⟨⟨resultsText, by decide, rfl⟩, "client", by decide, rfl⟩

/-- Both names are in the one event, with the counts of their last uploads. -/
theorem delivered_placed : ∃ t, ran delivered = some t ∧ t.places.count "b" = 1 ∧
    t.host.Recorded "b" (some "42".toList) := by
  obtain ⟨t, ht, hview⟩ := Option.map_eq_some_iff.mp delivered_run
  obtain ⟨hnames, hevents⟩ := PlacesView.mk.inj hview
  have hevaluates := ((evaluates_iff (by decide +kernel)).mpr delivered_found).last ht
  obtain ⟨event, hevent, hrows⟩ : ∃ event ∈ t.events,
      event.rows = [("b", some "42".toList), ("a", some "7".toList)] :=
    List.mem_map.mp (hevents ▸ List.mem_cons_self)
  refine ⟨t, ht, hevaluates.placed "b" (hnames ▸ by decide),
    hevaluates.recorded "b" _ (Or.inr ⟨event, hevent, ?_⟩)⟩
  rw [Table.mem_def, hrows]
  exact List.mem_cons_self

/-- **A queued name is in no place** where its lookup has found this. -/
def Unplaced (db : Option Database) : Prop :=
  (machine (fun _ => some resultsText) "A" signals).Meets (Contract signals) start
      (evaluated ++ [.finished db]) ∧
    (∃ s, ran (evaluated ++ [.finished db]) = some s ∧ "a" ∈ s.host.names ∧
      s.places.count "a" = 0) ∧
    ¬(machine (fun _ => some resultsText) "A" signals).Along
      (Evaluates (fun _ => some resultsText) "A" signals) start (evaluated ++ [.finished db])

theorem unplaced_of_run {db : Option Database}
    (hc : (machine (fun _ => some resultsText) "A" signals).Meets (Contract signals) start
      (evaluated ++ [.finished db]))
    (h : (ran (evaluated ++ [.finished db])).map (fun s => (s.host.names, s.places)) =
      some (["a"], [])) : Unplaced db := by
  obtain ⟨s, hs, heq⟩ := Option.map_eq_some_iff.mp h
  obtain ⟨hnames, hplaces⟩ := Prod.mk.inj heq
  have hmem : "a" ∈ s.host.names := hnames ▸ List.mem_cons_self
  have hcount : s.places.count "a" = 0 := by rw [hplaces, List.count_nil]
  refine ⟨hc, ⟨s, hs, hmem, hcount⟩, fun halong => ?_⟩
  have hone := (halong.last hs).placed "a" hmem
  rw [hcount] at hone
  cases hone

/-- **The names are in no place** once the results of a device without a reservation
are forgotten, or those of a device whose lookup has failed. -/
theorem unreserved_unplaced : Unplaced none ∧ Unplaced (some unreserved) :=
  ⟨unplaced_of_run (by decide) (by decide), unplaced_of_run (by decide) (by decide)⟩

end Board

end UsbipIce.PulseCount
