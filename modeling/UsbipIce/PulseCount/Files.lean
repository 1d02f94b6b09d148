import Mathlib.Data.List.Flatten
import UsbipIce.Lib.Pool
import UsbipIce.PulseCount.Host

/-!
# What is uploaded is what was submitted

A request hands over names with their contents; what is uploaded is a file, read
when its bitstream is taken from the queue. Between the two, `queue` zips paths,
names and contents in separate steps, other requests write files of their own,
and the run thread removes files as it goes.

That nothing gets mixed up rests on the paths: those of the bitstreams submitted
and those of the calls under way are all different
(`UsbipIce.PulseCount.Host.Filed`). So every file belongs to one bitstream, and
**every complete upload consists of the bytes that were submitted with the
bitstream uploaded** (`UsbipIce.PulseCount.Host.Carried`).
-/

namespace UsbipIce.PulseCount

open Lib

variable {ν δ : Type*} {search : δ → List (Signal ν)}

/-! ### The entries of a call -/

namespace Call

theorem contents_eq (c : Call) : c.contents = c.entries.map fun e => (e.1.location, e.2) := by
  rw [contents, entries, List.map_map, List.zip_map_right]
  rfl

theorem bitstreams_eq (c : Call) : c.bitstreams = c.entries.map Prod.fst := by
  rw [bitstreams, entries, Table.keys, List.zip_map_right, List.map_map, List.map_map]
  rfl

theorem map_location_entries {c : Call} (h : c.paths.length = c.files.rows.length) :
    c.entries.map (fun e => e.1.location) = c.paths := by
  have hcomp : ((fun e : Bitstream × String => e.1.location) ∘
      fun p : ℕ × String × String => ((⟨p.1, p.2.1⟩ : Bitstream), p.2.2)) = Prod.fst := rfl
  rw [entries, List.map_map, hcomp, List.map_fst_zip h.le]

theorem map_name_entries {c : Call} (h : c.paths.length = c.files.rows.length) :
    c.entries.map (fun e => e.1.name) = c.files.keys := by
  have hcomp : ((fun e : Bitstream × String => e.1.name) ∘
      fun p : ℕ × String × String => ((⟨p.1, p.2.1⟩ : Bitstream), p.2.2)) =
      Prod.fst ∘ Prod.snd := rfl
  rw [entries, List.map_map, hcomp, ← List.map_map, List.map_snd_zip h.ge, Table.keys]

theorem location_mem_paths {c : Call} (h : c.paths.length = c.files.rows.length)
    {e : Bitstream × String} (he : e ∈ c.entries) : e.1.location ∈ c.paths := by
  rw [← map_location_entries h]
  exact List.mem_map_of_mem (f := fun e => e.1.location) he

/-- The file a call writes next is that of one of its entries. -/
theorem entry_of_contents {c : Call} {i path : ℕ} {data : String}
    (h : c.contents[i]? = some (path, data)) :
    ∃ e, c.entries[i]? = some e ∧ e.1.location = path ∧ e.2 = data := by
  rw [contents_eq, List.getElem?_map, Option.map_eq_some_iff] at h
  obtain ⟨e, he, heq⟩ := h
  exact ⟨e, he, congrArg Prod.fst heq, congrArg Prod.snd heq⟩

/-- A call that finds nothing to write has written everything. -/
theorem take_written {c : Call} (h : c.contents[c.written]? = none) :
    c.entries.take c.written = c.entries := by
  rw [List.getElem?_eq_none_iff, contents_eq, List.length_map] at h
  exact List.take_of_length_le h

/-- The entries of a call have different paths. -/
theorem location_ne {c : Call} (hlen : c.paths.length = c.files.rows.length)
    (hnodup : c.paths.Nodup) {i : ℕ} {e e' : Bitstream × String} (he : c.entries[i]? = some e)
    (he' : e' ∈ c.entries.take i) : e'.1.location ≠ e.1.location := by
  rw [← map_location_entries hlen, ← List.take_append_drop i c.entries, List.map_append] at hnodup
  obtain ⟨-, -, hdis⟩ := List.nodup_append.mp hnodup
  have hmem : e ∈ c.entries.drop i := by
    obtain ⟨hi, rfl⟩ := List.getElem?_eq_some_iff.mp he
    rw [List.drop_eq_getElem_cons hi]
    exact List.mem_cons_self
  exact hdis _ (List.mem_map_of_mem (f := fun e => e.1.location) he') _
    (List.mem_map_of_mem (f := fun e => e.1.location) hmem)

end Call

/-! ### What the run thread holds -/

/-- The bitstream whose file the run thread may still use. -/
def Run.held : Run ν → Option Bitstream
  | .read b | .waitUntilReady b _ | .upload b _ _ | .waitUntilPulse b | .judge b _ | .remove b =>
    some b
  | .loop | .take | .finish | .ended => none

/-- The bitstream that is being evaluated. -/
def Run.evaluating : Run ν → Option Bitstream
  | .read b | .waitUntilReady b _ | .upload b _ _ | .waitUntilPulse b | .judge b _ => some b
  | .loop | .take | .remove _ | .finish | .ended => none

theorem Run.held_of_evaluating {r : Run ν} {b : Bitstream} (h : r.evaluating = some b) :
    r.held = some b := by
  cases r <;> first | exact h | cases h

namespace Host

/-- The bitstreams whose files may still be used. -/
def outstanding (s : Host ν) : List Bitstream := s.bitstreamQueue ++ s.run.held.toList

/-- The bitstreams still to be recorded. -/
def pending (s : Host ν) : List Bitstream := s.bitstreamQueue ++ s.run.evaluating.toList

/-- The paths of everything submitted and of the calls under way. -/
def locations (s : Host ν) : List ℕ :=
  s.history.submitted.map (fun e => e.1.location) ++ s.calls.flatMap Call.paths

/-- The bitstream was submitted with these bytes. -/
def Submitted (s : Host ν) (b : Bitstream) (bytes : List UInt8) : Prop :=
  ∃ text, (b, text) ∈ s.history.submitted ∧ Cp437.encode text = some bytes

theorem pending_subset (s : Host ν) : s.pending ⊆ s.outstanding := by
  intro b hb
  rcases List.mem_append.mp hb with hq | he
  · exact List.mem_append_left _ hq
  · rw [Option.mem_toList] at he
    exact List.mem_append_right _ (Option.mem_toList.mpr (Run.held_of_evaluating he))

/-! ### Files -/

/-- **The files are those of the bitstreams**: no two of the paths in use agree,
and the file of everything still to be evaluated, and of everything a call has
written, holds what was submitted. -/
structure Filed (s : Host ν) : Prop where
  nodup : s.locations.Nodup
  issued : s.locations ⊆ s.history.issued
  lengths : ∀ c ∈ s.calls, c.paths.length = c.files.rows.length
  written : ∀ c ∈ s.calls, ∀ e ∈ c.entries.take c.written,
    ∃ bytes, Cp437.encode e.2 = some bytes ∧ s.files e.1.location = some bytes
  outstanding_nodup : (s.outstanding.map Bitstream.location).Nodup
  known : ∀ b ∈ s.outstanding, ∃ text, (b, text) ∈ s.history.submitted
  filed : ∀ b ∈ s.pending, ∃ bytes, s.Submitted b bytes ∧ s.files b.location = some bytes

theorem filed_start : (start : Host ν).Filed where
  nodup := List.nodup_nil
  issued := List.Subset.refl _
  lengths := fun _ h => absurd h List.not_mem_nil
  written := fun _ h => absurd h List.not_mem_nil
  outstanding_nodup := List.nodup_nil
  known := fun _ h => absurd h List.not_mem_nil
  filed := fun _ h => absurd h List.not_mem_nil

/-- **What a bitstream was submitted with is unique.** -/
theorem Filed.unique {s : Host ν} (hs : s.Filed) {b : Bitstream} {x y : List UInt8}
    (hx : s.Submitted b x) (hy : s.Submitted b y) : x = y := by
  obtain ⟨text, ht, htx⟩ := hx
  obtain ⟨text', ht', hty⟩ := hy
  have hnodup : (s.history.submitted.map fun e => e.1.location).Nodup :=
    hs.nodup.sublist (List.sublist_append_left _ _)
  have heq : (b, text) = (b, text') := List.inj_on_of_nodup_map hnodup ht ht' rfl
  obtain rfl : text = text' := congrArg Prod.snd heq
  exact Option.some.inj (htx.symm.trans hty)

/-- The steps that write no file and start or end no call, and take no bitstream
back into use. -/
theorem Filed.frame {s t : Host ν} (hs : s.Filed) (hcalls : t.calls = s.calls)
    (hissued : t.history.issued = s.history.issued)
    (hsubmitted : t.history.submitted = s.history.submitted) (hfiles : t.files = s.files)
    (hout : t.outstanding.Sublist s.outstanding) (hpending : t.pending ⊆ s.pending) :
    t.Filed where
  nodup := by rw [locations, hcalls, hsubmitted]; exact hs.nodup
  issued := by rw [locations, hcalls, hsubmitted, hissued]; exact hs.issued
  lengths := by rw [hcalls]; exact hs.lengths
  written := by rw [hcalls, hfiles]; exact hs.written
  outstanding_nodup := hs.outstanding_nodup.sublist (hout.map _)
  known := fun b hb => by rw [hsubmitted]; exact hs.known b (hout.subset hb)
  filed := fun b hb => by
    obtain ⟨bytes, hbytes, hfile⟩ := hs.filed b (hpending hb)
    refine ⟨bytes, ?_, by rw [hfiles, hfile]⟩
    rw [Submitted, hsubmitted]
    exact hbytes

/-- A call under way has paths of its own. -/
theorem Filed.perm {s : Host ν} {k : ℕ} {c : Call} (hk : s.calls[k]? = some c) :
    s.locations.Perm (s.history.submitted.map (fun e => e.1.location) ++
      (c.paths ++ (s.calls.eraseIdx k).flatMap Call.paths)) := by
  refine List.Perm.append_left _ ?_
  have hperm := (perm_cons_eraseIdx hk).flatMap_right Call.paths
  rwa [List.flatMap_cons] at hperm

theorem Filed.nodup_paths {s : Host ν} (hs : s.Filed) {c : Call} (hc : c ∈ s.calls) :
    c.paths.Nodup := by
  obtain ⟨k, hk⟩ := List.mem_iff_getElem?.mp hc
  have hnodup := (Filed.perm hk).nodup_iff.mp hs.nodup
  exact (List.nodup_append.mp (List.nodup_append.mp hnodup).2.1).1

/-- Writing to a path of a call leaves the other files. -/
theorem Filed.ne_of_mem {s : Host ν} (hs : s.Filed) {k : ℕ} {c : Call} {path : ℕ}
    (hk : s.calls[k]? = some c) (hpath : path ∈ c.paths) :
    (∀ b ∈ s.outstanding, b.location ≠ path) ∧
      ∀ c' ∈ s.calls.eraseIdx k, ∀ e ∈ c'.entries, e.1.location ≠ path := by
  have hnodup := (Filed.perm hk).nodup_iff.mp hs.nodup
  obtain ⟨-, hrest, hdis⟩ := List.nodup_append.mp hnodup
  obtain ⟨-, -, hdis'⟩ := List.nodup_append.mp hrest
  constructor
  · intro b hb
    obtain ⟨text, htext⟩ := hs.known b hb
    exact hdis b.location (List.mem_map_of_mem (f := fun e => e.1.location) htext) path
      (List.mem_append_left _ hpath)
  · intro c' hc' e he heq
    have hloc : e.1.location ∈ c'.paths :=
      Call.location_mem_paths (hs.lengths c' (List.mem_of_mem_eraseIdx hc')) he
    exact hdis' path hpath e.1.location (List.mem_flatMap.mpr ⟨c', hc', hloc⟩) heq.symm

theorem Filed.write {s : Host ν} (hs : s.Filed) {k : ℕ} {c : Call} {path : ℕ} {data : String}
    {bytes : List UInt8} (hk : s.calls[k]? = some c)
    (hc : c.contents[c.written]? = some (path, data)) (hd : Cp437.encode data = some bytes) :
    Filed { s with
      files := Function.update s.files path (some bytes)
      calls := s.calls.set k { c with written := c.written + 1 } } := by
  obtain ⟨e, he, rfl, rfl⟩ := Call.entry_of_contents hc
  have hcmem : c ∈ s.calls := List.mem_of_getElem? hk
  have hlen := hs.lengths c hcmem
  obtain ⟨hout, hother⟩ := hs.ne_of_mem hk (Call.location_mem_paths hlen (List.mem_of_getElem? he))
  have hpaths : c.paths.Nodup := hs.nodup_paths hcmem
  have hcalls : (s.calls.set k { c with written := c.written + 1 }).flatMap Call.paths =
      s.calls.flatMap Call.paths := by
    rw [List.flatMap_def, List.flatMap_def, map_set_of_eq hk]
    rfl
  refine ⟨?_, ?_, ?_, ?_, hs.outstanding_nodup, hs.known, ?_⟩
  · rw [locations, hcalls]
    exact hs.nodup
  · rw [locations, hcalls]
    exact hs.issued
  · intro c' hc'
    rcases List.mem_or_eq_of_mem_set hc' with hold | rfl
    · exact hs.lengths c' hold
    · exact hlen
  · intro c' hc' e' he'
    have hmem : c' ∈ advance s.calls k (some { c with written := c.written + 1 }) := hc'
    rcases (mem_advance hk).mp hmem with heq | hold
    · obtain rfl := Option.some.inj heq
      -- the entries the call had written, and the one it writes now
      have hsplit : e' ∈ c.entries.take c.written ++ [e] := by
        rwa [List.take_add_one, show ({ c with written := c.written + 1 } : Call).entries =
          c.entries from rfl, he] at he'
      rcases List.mem_append.mp hsplit with hbefore | hnow
      · obtain ⟨bytes', hb', hfile⟩ := hs.written c hcmem e' hbefore
        refine ⟨bytes', hb', ?_⟩
        rw [← hfile]
        exact Function.update_of_ne (Call.location_ne hlen hpaths he hbefore) _ _
      · obtain rfl := List.mem_singleton.mp hnow
        exact ⟨bytes, hd, Function.update_self _ _ _⟩
    · obtain ⟨bytes', hb', hfile⟩ := hs.written c' (List.mem_of_mem_eraseIdx hold) e' he'
      refine ⟨bytes', hb', ?_⟩
      rw [← hfile]
      exact Function.update_of_ne (hother c' hold e' (List.mem_of_mem_take he')) _ _
  · intro b hb
    obtain ⟨bytes', hb', hfile⟩ := hs.filed b hb
    refine ⟨bytes', hb', ?_⟩
    rw [← hfile]
    exact Function.update_of_ne (hout b (s.pending_subset hb)) _ _

theorem Filed.raise {s : Host ν} (hs : s.Filed) {k : ℕ} {c : Call} {path : ℕ} {data : String}
    (hk : s.calls[k]? = some c) (hc : c.contents[c.written]? = some (path, data)) :
    Filed { s with
      files := Function.update s.files path (some [])
      calls := s.calls.eraseIdx k } := by
  obtain ⟨e, he, rfl, rfl⟩ := Call.entry_of_contents hc
  have hlen := hs.lengths c (List.mem_of_getElem? hk)
  obtain ⟨hout, hother⟩ := hs.ne_of_mem hk (Call.location_mem_paths hlen (List.mem_of_getElem? he))
  have hloc : (s.history.submitted.map (fun e => e.1.location) ++
      (s.calls.eraseIdx k).flatMap Call.paths).Sublist s.locations :=
    ((List.eraseIdx_sublist _ _).flatMap _).append_left _
  refine ⟨hs.nodup.sublist hloc, fun p hp => hs.issued (hloc.subset hp), ?_, ?_,
    hs.outstanding_nodup, hs.known, ?_⟩
  · exact fun c' hc' => hs.lengths c' (List.mem_of_mem_eraseIdx hc')
  · intro c' hc' e' he'
    obtain ⟨bytes, hb, hfile⟩ := hs.written c' (List.mem_of_mem_eraseIdx hc') e' he'
    refine ⟨bytes, hb, ?_⟩
    rw [← hfile]
    exact Function.update_of_ne (hother c' hc' e' (List.mem_of_mem_take he')) _ _
  · intro b hb
    obtain ⟨bytes, hbytes, hfile⟩ := hs.filed b hb
    refine ⟨bytes, hbytes, ?_⟩
    rw [← hfile]
    exact Function.update_of_ne (hout b (s.pending_subset hb)) _ _

theorem Filed.request {s : Host ν} (hs : s.Filed) {paths : List ℕ} {files : Files}
    (hlen : paths.length = files.rows.length) (hnodup : paths.Nodup)
    (hfresh : ∀ p ∈ paths, p ∉ s.history.issued) :
    Filed { s with
      calls := s.calls ++ [⟨paths, files, 0⟩]
      history :=
        { s.history with
          requested := s.history.requested ++ files.keys
          issued := s.history.issued ++ paths } } := by
  have hloc : s.history.submitted.map (fun e => e.1.location) ++
      (s.calls ++ [(⟨paths, files, 0⟩ : Call)]).flatMap Call.paths = s.locations ++ paths := by
    rw [locations, List.flatMap_append, List.flatMap_singleton, List.append_assoc]
  refine ⟨?_, ?_, ?_, ?_, hs.outstanding_nodup, hs.known, hs.filed⟩
  · rw [locations, hloc]
    refine List.nodup_append.mpr ⟨hs.nodup, hnodup, fun p hp q hq heq => ?_⟩
    exact hfresh q hq (heq ▸ hs.issued hp)
  · rw [locations, hloc]
    exact List.append_subset.mpr ⟨fun p hp => List.mem_append_left _ (hs.issued hp),
      List.subset_append_right _ _⟩
  · intro c hc
    rcases List.mem_append.mp hc with hold | hnew
    · exact hs.lengths c hold
    · obtain rfl := List.mem_singleton.mp hnew
      exact hlen
  · intro c hc e he
    rcases List.mem_append.mp hc with hold | hnew
    · exact hs.written c hold e he
    · -- a call starts with nothing written
      obtain rfl := List.mem_singleton.mp hnew
      exact absurd he List.not_mem_nil

theorem Filed.append {s : Host ν} (hs : s.Filed) {k : ℕ} {c : Call} (hk : s.calls[k]? = some c)
    (hc : c.contents[c.written]? = none) :
    Filed { s with
      bitstreamQueue := s.bitstreamQueue ++ c.bitstreams
      calls := s.calls.eraseIdx k
      history := { s.history with submitted := s.history.submitted ++ c.entries } } := by
  have hcmem : c ∈ s.calls := List.mem_of_getElem? hk
  have hlen := hs.lengths c hcmem
  have hloc : ((s.history.submitted ++ c.entries).map (fun e => e.1.location) ++
      (s.calls.eraseIdx k).flatMap Call.paths).Perm s.locations := by
    rw [List.map_append, Call.map_location_entries hlen, List.append_assoc]
    exact (Filed.perm hk).symm
  have hnew : ∀ b ∈ c.bitstreams, ∃ e ∈ c.entries, e.1 = b := fun b hb => by
    rw [Call.bitstreams_eq] at hb
    exact List.mem_map.mp hb
  refine ⟨hloc.nodup_iff.mpr hs.nodup, fun p hp => hs.issued (hloc.subset hp), ?_, ?_, ?_, ?_, ?_⟩
  · exact fun c' hc' => hs.lengths c' (List.mem_of_mem_eraseIdx hc')
  · exact fun c' hc' => hs.written c' (List.mem_of_mem_eraseIdx hc')
  · have hperm : (s.bitstreamQueue ++ c.bitstreams ++ s.run.held.toList).Perm
        (s.outstanding ++ c.bitstreams) := by
      rw [outstanding, List.append_assoc, List.append_assoc]
      exact List.perm_append_comm.append_left _
    have hpaths : c.bitstreams.map Bitstream.location = c.paths := by
      rw [Call.bitstreams_eq, List.map_map]
      exact Call.map_location_entries hlen
    refine (hperm.map Bitstream.location).nodup_iff.mpr ?_
    rw [List.map_append, hpaths]
    refine List.nodup_append.mpr ⟨hs.outstanding_nodup, hs.nodup_paths hcmem, ?_⟩
    intro p hp q hq
    obtain ⟨b, hb, rfl⟩ := List.mem_map.mp hp
    exact (hs.ne_of_mem hk hq).1 b hb
  · intro b hb
    rcases List.mem_append.mp hb with hq | hheld
    · rcases List.mem_append.mp hq with hold | hb'
      · obtain ⟨text, htext⟩ := hs.known b (List.mem_append_left _ hold)
        exact ⟨text, List.mem_append_left _ htext⟩
      · obtain ⟨e, he, rfl⟩ := hnew b hb'
        exact ⟨e.2, List.mem_append_right _ he⟩
    · obtain ⟨text, htext⟩ := hs.known b (List.mem_append_right _ hheld)
      exact ⟨text, List.mem_append_left _ htext⟩
  · have hold : ∀ b ∈ s.pending, ∃ bytes, Submitted { s with
        bitstreamQueue := s.bitstreamQueue ++ c.bitstreams
        calls := s.calls.eraseIdx k
        history := { s.history with submitted := s.history.submitted ++ c.entries } } b bytes ∧
          s.files b.location = some bytes := fun b hb => by
      obtain ⟨bytes, ⟨text, htext, henc⟩, hfile⟩ := hs.filed b hb
      exact ⟨bytes, ⟨text, List.mem_append_left _ htext, henc⟩, hfile⟩
    intro b hb
    rcases List.mem_append.mp hb with hq | heval
    · rcases List.mem_append.mp hq with hb' | hb'
      · exact hold b (List.mem_append_left _ hb')
      · obtain ⟨e, he, rfl⟩ := hnew b hb'
        rw [← Call.take_written hc] at he
        obtain ⟨bytes, henc, hfile⟩ := hs.written c hcmem e he
        exact ⟨bytes, ⟨e.2, List.mem_append_right _ (List.mem_of_mem_take he), henc⟩, hfile⟩
    · exact hold b (List.mem_append_right _ heval)

/-- The file of the bitstream just recorded is removed. -/
theorem Filed.remove {s : Host ν} (hs : s.Filed) {b : Bitstream} (hrun : s.run = .remove b) :
    Filed { s with
      files := Function.update s.files b.location none
      run := .finish } := by
  have hb : ∃ text, (b, text) ∈ s.history.submitted :=
    hs.known b (by rw [outstanding, hrun]; exact List.mem_append_right _ List.mem_cons_self)
  obtain ⟨text, htext⟩ := hb
  have hmem : b.location ∈ s.history.submitted.map fun e => e.1.location :=
    List.mem_map_of_mem (f := fun e : Bitstream × String => e.1.location) htext
  have hout : s.outstanding = s.bitstreamQueue ++ [b] := by rw [outstanding, hrun]; rfl
  have hnodup := hs.outstanding_nodup
  rw [hout, List.map_append] at hnodup
  refine ⟨hs.nodup, hs.issued, hs.lengths, ?_, ?_, ?_, ?_⟩
  · -- the paths of the calls are not among those submitted
    intro c hc e he
    obtain ⟨bytes, henc, hfile⟩ := hs.written c hc e he
    refine ⟨bytes, henc, ?_⟩
    rw [← hfile]
    refine Function.update_of_ne (fun heq => ?_) _ _
    have hpath : e.1.location ∈ s.calls.flatMap Call.paths :=
      List.mem_flatMap.mpr ⟨c, hc, Call.location_mem_paths (hs.lengths c hc)
        (List.mem_of_mem_take he)⟩
    exact (List.nodup_append.mp hs.nodup).2.2 _ hmem _ hpath heq.symm
  · rw [outstanding, Run.held, Option.toList_none, List.append_nil]
    exact (List.nodup_append.mp hnodup).1
  · intro b' hb'
    rw [outstanding, Run.held, Option.toList_none, List.append_nil] at hb'
    exact hs.known b' (List.mem_append_left _ hb')
  · -- nor is another bitstream of the queue at the path removed
    intro b' hb'
    rw [pending, Run.evaluating, Option.toList_none, List.append_nil] at hb'
    obtain ⟨bytes, hbytes, hfile⟩ := hs.filed b' (List.mem_append_left _ hb')
    refine ⟨bytes, hbytes, ?_⟩
    rw [← hfile]
    refine Function.update_of_ne (fun heq => ?_) _ _
    exact (List.nodup_append.mp hnodup).2.2 _ (List.mem_map_of_mem hb') _
      List.mem_cons_self heq

/-- The steps that only move the run thread, which keeps its bitstream or lets
go of it. -/
theorem Filed.move {s t : Host ν} (hs : s.Filed) (hcalls : t.calls = s.calls)
    (hissued : t.history.issued = s.history.issued)
    (hsubmitted : t.history.submitted = s.history.submitted) (hfiles : t.files = s.files)
    (hqueue : t.bitstreamQueue = s.bitstreamQueue)
    (hheld : ∀ b, t.run.held = some b → s.run.held = some b)
    (heval : ∀ b, t.run.evaluating = some b → s.run.evaluating = some b) : t.Filed := by
  have htoList : ∀ o o' : Option Bitstream, (∀ b, o = some b → o' = some b) →
      o.toList.Sublist o'.toList := by
    intro o o' ho
    cases o with
    | none => exact List.nil_sublist _
    | some b => rw [ho b rfl]
  refine hs.frame hcalls hissued hsubmitted hfiles ?_ ?_
  · rw [outstanding, outstanding, hqueue]
    exact (htoList _ _ hheld).append_left _
  · rw [pending, pending, hqueue]
    exact ((htoList _ _ heval).append_left _).subset

/-- The loop over the chunks keeps its bitstream. -/
theorem Filed.uploadFrom {s s' : Host ν} (hs : s.Filed) {b : Bitstream}
    (hrun : s.run.evaluating = some b) (hcalls : s'.calls = s.calls)
    (hhistory : s'.history = s.history) (hfiles : s'.files = s.files)
    (hqueue : s'.bitstreamQueue = s.bitstreamQueue) (data : List UInt8) (i : ℕ) :
    (s'.uploadFrom b data i).Filed := by
  have hheld := Run.held_of_evaluating hrun
  rw [Host.uploadFrom]
  split
  · exact hs.move hcalls (by rw [hhistory]) (by rw [hhistory]) hfiles hqueue
      (fun b' hb' => hheld.trans hb') fun b' hb' => hrun.trans hb'
  · exact hs.move hcalls (by rw [hhistory]) (by rw [hhistory]) hfiles hqueue
      (fun b' hb' => hheld.trans hb') fun b' hb' => hrun.trans hb'

/-- **Every step keeps the files apart.** -/
theorem filed_step {s t : Host ν} {i : HostInput δ} (hs : s.Filed)
    (h : s.step search i = some t) : t.Filed := by
  cases rule_of_step h with
  | request hlen hnodup hfresh => exact hs.request hlen hnodup hfresh
  | write hk hc hd => exact hs.write hk hc hd
  | raise hk hc => exact hs.raise hk hc
  | append hk hc => exact hs.append hk hc
  | loop hrun => exact hs.move rfl rfl rfl rfl rfl nofun nofun
  | leave hrun => exact hs.move rfl rfl rfl rfl rfl nofun nofun
  | @take b hrun hb =>
    have hqueue := List.dropLast_append_getLast? b hb
    refine hs.frame rfl rfl rfl rfl ?_ ?_
    · rw [outstanding, Run.held, Option.toList_some, hqueue, outstanding]
      exact List.sublist_append_left _ _
    · rw [pending, Run.evaluating, Option.toList_some, hqueue, pending]
      exact List.subset_append_left _ _
  | read hrun hfile =>
    exact hs.move rfl rfl rfl rfl rfl (fun b hb => by rw [hrun]; exact hb)
      fun b hb => by rw [hrun]; exact hb
  | ready hrun hr =>
    refine hs.uploadFrom ?_ ?_ ?_ ?_ ?_ _ _
    · rw [hrun, Run.evaluating]
    all_goals rfl
  | chunk hrun =>
    refine hs.uploadFrom ?_ ?_ ?_ ?_ ?_ _ _
    · rw [hrun, Run.evaluating]
    all_goals rfl
  | pulse hrun hr =>
    exact hs.move rfl rfl rfl rfl rfl (fun b hb => by rw [hrun]; exact hb)
      fun b hb => by rw [hrun]; exact hb
  | @requeue b hrun =>
    have hout : s.outstanding = s.bitstreamQueue ++ [b] := by rw [outstanding, hrun]; rfl
    have hpending : s.pending = s.bitstreamQueue ++ [b] := by rw [pending, hrun]; rfl
    refine hs.frame rfl rfl rfl rfl ?_ ?_
    · show (s.bitstreamQueue ++ [b] ++ []).Sublist s.outstanding
      rw [hout, List.append_nil]
    · show s.bitstreamQueue ++ [b] ++ [] ⊆ s.pending
      rw [hpending, List.append_nil]
      exact List.Subset.refl _
  | store hrun =>
    exact hs.move rfl rfl rfl rfl rfl (fun b hb => by rw [hrun]; exact hb) nofun
  | remove hrun => exact hs.remove hrun
  | send hrun hqueue => exact hs.move rfl rfl rfl rfl rfl nofun nofun
  | keep hrun => exact hs.move rfl rfl rfl rfl rfl nofun nofun
  | receive hr => exact hs.frame rfl rfl rfl rfl (List.Sublist.refl _) (List.Subset.refl _)
  | signal hr => exact hs.frame rfl rfl rfl rfl (List.Sublist.refl _) (List.Subset.refl _)
  | exit => exact hs.frame rfl rfl rfl rfl (List.Sublist.refl _) (List.Subset.refl _)
  | joinRun hrun => exact hs.frame rfl rfl rfl rfl (List.Sublist.refl _) (List.Subset.refl _)

/-! ### Uploads -/

/-- Nothing submitted is ever forgotten. -/
theorem submitted_step {s t : Host ν} {i : HostInput δ} (h : s.step search i = some t) :
    s.history.submitted ⊆ t.history.submitted := by
  cases rule_of_step h with
  | append hk hc => exact List.subset_append_left _ _
  | ready hrun hr =>
    obtain ⟨run, uploads, heq⟩ := uploadFrom_eq _ _ _ _
    rw [heq]
    exact List.Subset.refl _
  | chunk hrun =>
    obtain ⟨run, uploads, heq⟩ := uploadFrom_eq _ _ _ _
    rw [heq]
    exact List.Subset.refl _
  | _ => exact List.Subset.refl _

theorem Submitted.mono {s t : Host ν} (h : s.history.submitted ⊆ t.history.submitted)
    {b : Bitstream} {bytes : List UInt8} : s.Submitted b bytes → t.Submitted b bytes := by
  rintro ⟨text, htext, henc⟩
  exact ⟨text, h htext, henc⟩

/-- What the run thread knows of the upload it is at: the data it uploads are
those submitted with its bitstream, and what it has written so far is a prefix of
them; the upload it waits for the answer of is the last. -/
def Carries (s : Host ν) : Prop :=
  match s.run with
  | .waitUntilReady b data => s.Submitted b data
  | .upload b data i => s.Submitted b data ∧ s.wire = data.take i
  | .waitUntilPulse b | .judge b _ => ∃ bytes, s.history.uploads.getLast? = some (b, bytes)
  | _ => True

/-- **Complete uploads carry what was submitted.** -/
structure Carried (s : Host ν) : Prop where
  uploads : ∀ u ∈ s.history.uploads, s.Submitted u.1 u.2
  carries : s.Carries

theorem carried_start : (start : Host ν).Carried where
  uploads := fun _ h => absurd h List.not_mem_nil
  carries := trivial

/-- A step that completes no upload and leaves the run thread where it is. -/
theorem Carried.frame {s t : Host ν} (hs : s.Carried)
    (hsubmitted : s.history.submitted ⊆ t.history.submitted)
    (huploads : t.history.uploads = s.history.uploads) (hwire : t.wire = s.wire)
    (hrun : t.run = s.run) : t.Carried where
  uploads := fun u hu => (hs.uploads u (huploads ▸ hu)).mono hsubmitted
  carries := by
    have hc := hs.carries
    rw [Carries] at hc ⊢
    rw [hrun, huploads, hwire]
    split at hc
    · exact hc.mono hsubmitted
    · exact ⟨hc.1.mono hsubmitted, hc.2⟩
    · exact hc
    · exact hc
    · trivial

/-- The loop over the chunks goes on, or completes the upload. -/
theorem carried_uploadFrom {s : Host ν} (huploads : ∀ u ∈ s.history.uploads, s.Submitted u.1 u.2)
    {b : Bitstream} {data : List UInt8} {i : ℕ} (hdata : s.Submitted b data)
    (hwire : s.wire = data.take i) : (s.uploadFrom b data i).Carried := by
  rw [uploadFrom]
  split
  · exact ⟨huploads, hdata, hwire⟩
  · rename_i hi
    have hall : s.wire = data := by rw [hwire, List.take_of_length_le (by omega)]
    refine ⟨fun u hu => ?_, s.wire, List.getLast?_concat⟩
    rcases List.mem_append.mp hu with hold | hnew
    · exact huploads u hold
    · obtain rfl := List.mem_singleton.mp hnew
      rw [hall]
      exact hdata

theorem carried_step {s t : Host ν} {i : HostInput δ} (hf : s.Filed) (hs : s.Carried)
    (h : s.step search i = some t) : t.Carried := by
  have hcarries := hs.carries
  rw [Carries] at hcarries
  cases rule_of_step h with
  | loop hrun => exact ⟨hs.uploads, trivial⟩
  | leave hrun => exact ⟨hs.uploads, trivial⟩
  | take hrun hb => exact ⟨hs.uploads, trivial⟩
  | @read b data hrun hfile =>
    have hmem : b ∈ s.pending := by
      rw [pending, hrun]
      exact List.mem_append_right _ List.mem_cons_self
    obtain ⟨bytes, hbytes, hfile'⟩ := hf.filed b hmem
    obtain rfl : data = bytes := Option.some.inj (hfile.symm.trans hfile')
    exact ⟨hs.uploads, hbytes⟩
  | ready hrun hr =>
    rw [hrun] at hcarries
    refine carried_uploadFrom ?_ ?_ ?_
    · exact hs.uploads
    · exact hcarries
    · exact List.take_zero.symm
  | @chunk b data i hrun =>
    rw [hrun] at hcarries
    refine carried_uploadFrom ?_ ?_ ?_
    · exact hs.uploads
    · exact hcarries.1
    show s.wire ++ (data.drop i).take chunkSize = data.take (i + chunkSize)
    rw [hcarries.2, List.take_add]
  | pulse hrun hr =>
    rw [hrun] at hcarries
    exact ⟨hs.uploads, hcarries⟩
  | requeue hrun => exact ⟨hs.uploads, trivial⟩
  | store hrun => exact ⟨hs.uploads, trivial⟩
  | remove hrun => exact ⟨hs.uploads, trivial⟩
  | send hrun hqueue => exact ⟨hs.uploads, trivial⟩
  | keep hrun => exact ⟨hs.uploads, trivial⟩
  | append hk hc => exact hs.frame (List.subset_append_left _ _) rfl rfl rfl
  | _ => exact hs.frame (List.Subset.refl _) rfl rfl rfl

/-- **In every run, every complete upload consists of the bytes submitted with
its bitstream.** -/
theorem carried_run {t : Host ν} {is : List (HostInput δ)}
    (h : (machine search).run start is = some t) : t.Filed ∧ t.Carried :=
  Machine.invariant (I := fun s : Host ν => s.Filed ∧ s.Carried)
    (fun _ _ _ hs hstep => ⟨filed_step hs.1 hstep, carried_step hs.1 hs.2 hstep⟩)
    ⟨filed_start, carried_start⟩ h

end Host

end UsbipIce.PulseCount
