import UsbipIce.Client.PulseCountClient
import UsbipIce.Lib.GroupBy

/-!
# Batch requests

`BaseClient.requestBatchWorker` groups its serials by their connection info and
sends one packet to the worker of each group. The groups are those of `groupby`
(`UsbipIce.Lib.groupby`), so of neighbours only, and two infos are compared with
`ConnectionInfo.__eq__`.

That comparison raises on `None`, the key of an unknown serial, and takes an info
for equal to one on the same ip whose port is that ip. The packets are the right
ones exactly where the serials are all known or all unknown and no group runs on
into another worker's (`UsbipIce.Client.requestBatchWorker_iff`).

The steps that the call of `evaluate` takes through its batch are those of this
method (`UsbipIce.PulseCountClient.goesOn_batch`).
-/

namespace UsbipIce

open Lib

/-! ### The method -/

/-- A call of `sendWorker` for a request. -/
structure Packet (δ : Type*) where
  url : String
  serial : List String
  event : String
  contents : δ

namespace Client

variable {δ : Type*}

/-- The loop of `requestBatchWorker` over the groups, and what it returns.
`raised` says that the iterator raises behind them; `sendWorker` is what a call
for a url returns, or `none` where its `emit` raises. -/
def sendGroups (sendWorker : String → Option Bool) (event : String) (data : δ) (raised : Bool) :
    List Group → List String → List (Packet δ) × Option (List String)
  | [], failed => ([], if raised then none else some failed)
  -- a group with no connection info is logged and skipped
  | (none, _) :: groups, failed => sendGroups sendWorker event data raised groups failed
  | (some info, batch) :: groups, failed =>
    let rest : List (Packet δ) × Option (List String) :=
      match sendWorker info.url with
      | none => ([], none)
      | some true => sendGroups sendWorker event data raised groups failed
      | some false => sendGroups sendWorker event data raised groups (failed ++ batch)
    (⟨info.url, batch, event, data⟩ :: rest.1, rest.2)

/-- `BaseClient.requestBatchWorker`: the packets it sends, and the serials it
returns unless it raises. -/
def requestBatchWorker (c : Client) (sendWorker : String → Option Bool) (serials : List String)
    (event : String) (data : δ) : List (Packet δ) × Option (List String) :=
  let groups := groupby keyEq c.getConnectionInfo serials
  sendGroups sendWorker event data groups.2 groups.1 []

/-- The infos of a client are objects: one has one ip and one port. -/
def Coherent (c : Client) : Prop :=
  ∀ p ∈ c.connectionInfo, ∀ q ∈ c.connectionInfo, p.2.oid = q.2.oid → p.2 = q.2

/-! ### What is asked of it -/

/-- The occurrences that are to be sent, each with the url of its worker. -/
def addressed (c : Client) (serials : List String) : List (String × String) :=
  serials.filterMap fun s => (c.getConnectionInfo s).map fun info => (s, info.url)

/-- The occurrences whose packet fails. -/
def failing (c : Client) (sendWorker : String → Option Bool) (serials : List String) :
    List String :=
  serials.filter fun s =>
    (c.getConnectionInfo s).any fun info => decide (sendWorker info.url = some false)

/-- **The batch is sent**: it returns; every occurrence of a known serial is in one
packet, to its own worker, with the event and the data; and what is returned are
the occurrences of those that could not be sent. -/
structure BatchSent (c : Client) (sendWorker : String → Option Bool) (serials : List String)
    (event : String) (data : δ) (outcome : List (Packet δ) × Option (List String)) : Prop where
  packets : (outcome.1.flatMap fun p => p.serial.map fun s => (s, p.url)).Perm (c.addressed serials)
  payload : ∀ p ∈ outcome.1, p.event = event ∧ p.contents = data
  returns : ∃ failed, outcome.2 = some failed ∧ failed.Perm (c.failing sendWorker serials)

/-- The infos behind one whose port is its ip stay on its url, as long as they are
on its ip. -/
def StaysWith (info : ConnectionInfo) (infos : List ConnectionInfo) : Prop :=
  info.serverPort = info.ip →
    ∀ q ∈ infos.takeWhile fun q => decide (q.ip = info.ip), q.url = info.url

/-- **No group runs on into another worker's.** -/
def Straight (infos : List ConnectionInfo) : Prop :=
  ∀ info rest, info :: rest <:+ infos → StaysWith info rest

theorem straight_nil : Straight [] := by
  intro info rest h
  exact absurd (List.suffix_nil.mp h) (List.cons_ne_nil info rest)

@[simp] theorem straight_cons {info : ConnectionInfo} {infos : List ConnectionInfo} :
    Straight (info :: infos) ↔ StaysWith info infos ∧ Straight infos := by
  simp only [Straight, List.suffix_cons_iff]
  constructor
  · intro h
    exact ⟨h info infos (Or.inl rfl), fun p rest hp => h p rest (Or.inr hp)⟩
  · rintro ⟨hhead, htail⟩ p rest (heq | hp)
    · obtain ⟨rfl, rfl⟩ := List.cons.inj heq
      exact hhead
    · exact htail p rest hp

/-! ### The comparison of keys -/

@[simp] theorem keyEq_eq_none_iff (k k' : Option ConnectionInfo) :
    keyEq k k' = none ↔ k.isSome ≠ k'.isSome := by
  cases k <;> cases k' <;> simp [keyEq]

/-- Two objects are taken for equal where they are one, or share an ip that is the
port of the first. -/
theorem keyEq_some_iff {p q : ConnectionInfo} (hpq : p.oid = q.oid → p = q) :
    keyEq (some p) (some q) = some true ↔ p = q ∨ q.ip = p.ip ∧ p.serverPort = p.ip := by
  simp only [keyEq, ConnectionInfo.eq, Option.some.injEq, Bool.or_eq_true, Bool.and_eq_true,
    decide_eq_true_eq]
  constructor
  · rintro (hoid | ⟨hip, hport⟩)
    · exact Or.inl (hpq hoid)
    · exact Or.inr ⟨hip.symm, hport.trans hip.symm⟩
  · rintro (rfl | ⟨hip, hport⟩)
    · exact Or.inl rfl
    · exact Or.inr ⟨hip.symm, hport.trans hip.symm⟩

theorem keyEq_of_ne {p q : ConnectionInfo} (h : keyEq (some p) (some q) ≠ some true) :
    keyEq (some p) (some q) = some false := by
  rw [keyEq] at h ⊢
  rw [Option.some.injEq]
  exact Bool.eq_false_iff.mpr fun htrue => h (congrArg some htrue)

/-- An info taken for equal stays with the first one exactly where it is on the
same url and what comes behind it stays as well. -/
theorem staysWith_cons_of_keyEq {p q : ConnectionInfo} {infos : List ConnectionInfo}
    (h : p = q ∨ q.ip = p.ip ∧ p.serverPort = p.ip) :
    StaysWith p (q :: infos) ∧ StaysWith q infos ↔ q.url = p.url ∧ StaysWith p infos := by
  have hip : q.ip = p.ip := h.elim (fun heq => heq ▸ rfl) And.left
  have htake : ((q :: infos).takeWhile fun r => decide (r.ip = p.ip)) =
      q :: infos.takeWhile fun r => decide (r.ip = p.ip) :=
    List.takeWhile_cons_of_pos (decide_eq_true hip)
  rw [StaysWith, StaysWith, StaysWith, htake, hip]
  simp only [List.forall_mem_cons]
  constructor
  · rintro ⟨hp, hq⟩
    rcases h with rfl | ⟨-, hport⟩
    · exact ⟨rfl, hq⟩
    · exact ⟨(hp hport).1, fun _ => (hp hport).2⟩
  · rintro ⟨hurl, hrest⟩
    refine ⟨fun hport => ⟨hurl, hrest hport⟩, fun hq r hr => ?_⟩
    have hport : p.serverPort = p.ip := h.elim (fun heq => heq ▸ hq) And.right
    exact (hrest hport r hr).trans hurl.symm

/-- One that is not begins a group of its own. -/
theorem staysWith_cons_of_not_keyEq {p q : ConnectionInfo} {infos : List ConnectionInfo}
    (h : ¬(p = q ∨ q.ip = p.ip ∧ p.serverPort = p.ip)) : StaysWith p (q :: infos) := by
  intro hport
  have hip : q.ip ≠ p.ip := fun hip => h (Or.inr ⟨hip, hport⟩)
  rw [List.takeWhile_cons_of_neg (by simpa using hip)]
  exact fun r hr => absurd hr List.not_mem_nil

/-! ### Groups of one worker -/

/-- The serials of a group are on the url it is sent to. -/
def OneUrl (c : Client) (group : Group) : Prop :=
  ∀ info ∈ group.1, ∀ s ∈ group.2, (c.getConnectionInfo s).map ConnectionInfo.url = some info.url

variable {c : Client}

theorem Coherent.eq_of_oid (hc : c.Coherent) {s t : String} {p q : ConnectionInfo}
    (hs : c.getConnectionInfo s = some p) (ht : c.getConnectionInfo t = some q)
    (hoid : p.oid = q.oid) : p = q :=
  hc _ (getConnectionInfo_eq_some.mp hs) _ (getConnectionInfo_eq_some.mp ht) hoid

/-- A group that has just begun is of one worker. -/
theorem oneUrl_singleton {s : String} {p : ConnectionInfo} (hp : c.getConnectionInfo s = some p) :
    c.OneUrl (some p, [s]) := by
  rintro info hinfo t ht
  obtain rfl := List.mem_singleton.mp ht
  obtain rfl := Option.some.inj hinfo
  rw [hp, Option.map_some]

/-- **The groups are of one worker each** exactly where none runs on. -/
theorem oneUrl_groupFrom_iff (hc : c.Coherent) {first : String} {p : ConnectionInfo}
    (hp : c.getConnectionInfo first = some p) {batch serials : List String}
    (hknown : ∀ s ∈ serials, (c.getConnectionInfo s).isSome) :
    (∀ group ∈ (groupFrom keyEq c.getConnectionInfo (some p, batch) serials).1, c.OneUrl group) ↔
      c.OneUrl (some p, batch) ∧ StaysWith p (serials.filterMap c.getConnectionInfo) ∧
        Straight (serials.filterMap c.getConnectionInfo) := by
  induction serials generalizing first p batch with
  | nil =>
    have hstays : StaysWith p [] := fun _ q hq => absurd hq List.not_mem_nil
    rw [groupFrom, List.forall_mem_singleton]
    exact (and_iff_left ⟨hstays, straight_nil⟩).symm
  | cons s serials ih =>
    obtain ⟨hs, hknown⟩ := List.forall_mem_cons.mp hknown
    obtain ⟨q, hq⟩ := Option.isSome_iff_exists.mp hs
    rw [List.filterMap_cons_some hq, straight_cons]
    have hkey : keyEq (some p) (c.getConnectionInfo s) = some true ↔ _ :=
      hq ▸ keyEq_some_iff (hc.eq_of_oid hp hq)
    by_cases heq : keyEq (some p) (c.getConnectionInfo s) = some true
    · have hmember :
          c.OneUrl (some p, batch ++ [s]) ↔ c.OneUrl (some p, batch) ∧ q.url = p.url := by
        simp only [OneUrl, Option.mem_some_iff, forall_eq', List.forall_mem_append,
          List.forall_mem_singleton, hq, Option.map_some, Option.some.injEq]
      rw [groupFrom_cons_of_true heq, ih hp hknown, hmember,
        ← and_assoc (a := StaysWith p (q :: _)),
        staysWith_cons_of_keyEq (hkey.mp heq)]
      tauto
    · have hne := keyEq_of_ne (hq ▸ heq)
      rw [groupFrom_cons_of_false (hq ▸ hne), List.forall_mem_cons, hq, ih hq hknown,
        and_iff_right (oneUrl_singleton hq),
        and_iff_right (staysWith_cons_of_not_keyEq fun h => heq (hkey.mpr h))]

/-! ### The loop -/

section Loop

variable {δ : Type*} {sendWorker : String → Option Bool} {event : String} {data : δ} {raised : Bool}

/-- Every packet has the event and the data. -/
theorem payload_sendGroups (groups : List Group) (failed : List String) :
    ∀ p ∈ (sendGroups sendWorker event data raised groups failed).1,
      p.event = event ∧ p.contents = data := by
  induction groups generalizing failed with
  | nil => exact fun p hp => absurd hp List.not_mem_nil
  | cons group groups ih =>
    obtain ⟨key, batch⟩ := group
    cases key with
    | none => exact ih failed
    | some info =>
      rw [sendGroups]
      refine List.forall_mem_cons.mpr ⟨⟨rfl, rfl⟩, ?_⟩
      split
      · exact fun p hp => absurd hp List.not_mem_nil
      · exact ih failed
      · exact ih (failed ++ batch)

/-- A loop that returns has sent a packet for every group with a connection
info. -/
theorem sent_of_sendGroups {groups : List Group} {failed returned : List String}
    (h : (sendGroups sendWorker event data raised groups failed).2 = some returned) :
    raised = false ∧ ∀ group ∈ groups, ∀ info ∈ group.1, sendWorker info.url ≠ none ∧
      ⟨info.url, group.2, event, data⟩ ∈
        (sendGroups sendWorker event data raised groups failed).1 := by
  induction groups generalizing failed with
  | nil =>
    refine ⟨?_, fun group hgroup => absurd hgroup List.not_mem_nil⟩
    cases raised with
    | false => rfl
    | true => cases h
  | cons group groups ih =>
    obtain ⟨key, batch⟩ := group
    cases key with
    | none =>
      obtain ⟨hraised, hsent⟩ := ih h
      refine ⟨hraised, List.forall_mem_cons.mpr ⟨fun info hinfo => ?_, hsent⟩⟩
      cases hinfo
    | some info =>
      rw [sendGroups] at h ⊢
      simp only [List.forall_mem_cons, Option.mem_some_iff, forall_eq']
      cases hsend : sendWorker info.url with
      | none =>
        rw [hsend] at h
        cases h
      | some sent =>
        rw [hsend] at h
        have hrest : raised = false ∧ ∀ group ∈ groups, ∀ info ∈ group.1,
            sendWorker info.url ≠ none ∧ ⟨info.url, group.2, event, data⟩ ∈
              (sendGroups sendWorker event data raised groups
                (if sent then failed else failed ++ batch)).1 := by
          cases sent with
          | true => exact ih h
          | false => exact ih h
        refine ⟨hrest.1, ⟨by simp, List.mem_cons_self⟩, fun group hgroup i hi => ?_⟩
        obtain ⟨hanswer, hmem⟩ := hrest.2 group hgroup i hi
        refine ⟨hanswer, List.mem_cons_of_mem _ ?_⟩
        cases sent with
        | true => exact hmem
        | false => exact hmem

/-- The serials of a group without a connection info are unknown. -/
def Skipped (c : Client) (group : Group) : Prop :=
  group.1 = none → ∀ s ∈ group.2, c.getConnectionInfo s = none

theorem addressed_of_oneUrl {info : ConnectionInfo} {batch : List String}
    (h : c.OneUrl (some info, batch)) : c.addressed batch = batch.map fun s => (s, info.url) := by
  rw [addressed, ← List.filterMap_eq_map]
  refine List.filterMap_congr fun s hs => ?_
  obtain ⟨q, hq, hurl⟩ := Option.map_eq_some_iff.mp (h info rfl s hs)
  rw [hq, Option.map_some, hurl]
  rfl

theorem failing_of_oneUrl {info : ConnectionInfo} {batch : List String}
    (h : c.OneUrl (some info, batch)) :
    c.failing sendWorker batch = if sendWorker info.url = some false then batch else [] := by
  have hcongr : ∀ s ∈ batch, (c.getConnectionInfo s).any
      (fun q => decide (sendWorker q.url = some false)) =
        decide (sendWorker info.url = some false) := by
    intro s hs
    obtain ⟨q, hq, hurl⟩ := Option.map_eq_some_iff.mp (h info rfl s hs)
    rw [hq, Option.any_some, hurl]
  rw [failing, List.filter_congr hcongr]
  split
  · exact List.filter_eq_self.mpr fun s _ => decide_eq_true ‹_›
  · exact List.filter_eq_nil_iff.mpr fun s _ => by simpa using ‹_›

theorem addressed_of_skipped {batch : List String} (h : c.Skipped (none, batch)) :
    c.addressed batch = [] := by
  refine List.filterMap_eq_nil_iff.mpr fun s hs => ?_
  rw [h rfl s hs, Option.map_none]

theorem failing_of_skipped {batch : List String} (h : c.Skipped (none, batch)) :
    c.failing sendWorker batch = [] := by
  refine List.filter_eq_nil_iff.mpr fun s hs => ?_
  rw [h rfl s hs]
  simp

variable (event data) in
/-- **The loop over groups of one worker each** sends what is to be sent. -/
theorem sendGroups_spec {groups : List Group} (hone : ∀ group ∈ groups, c.OneUrl group)
    (hskipped : ∀ group ∈ groups, c.Skipped group)
    (hanswers : ∀ group ∈ groups, ∀ info ∈ group.1, sendWorker info.url ≠ none)
    (failed : List String) :
    ((sendGroups sendWorker event data false groups failed).1.flatMap fun p =>
        p.serial.map fun s => (s, p.url)) = c.addressed (groups.flatMap Prod.snd) ∧
      (sendGroups sendWorker event data false groups failed).2 =
        some (failed ++ c.failing sendWorker (groups.flatMap Prod.snd)) := by
  induction groups generalizing failed with
  | nil => exact ⟨rfl, congrArg some (List.append_nil failed).symm⟩
  | cons group groups ih =>
    obtain ⟨hone₁, hones⟩ := List.forall_mem_cons.mp hone
    obtain ⟨hskipped₁, hskips⟩ := List.forall_mem_cons.mp hskipped
    obtain ⟨hanswer, hrest⟩ := List.forall_mem_cons.mp hanswers
    have hgroups := ih hones hskips hrest
    obtain ⟨key, batch⟩ := group
    have happend : c.addressed (batch ++ groups.flatMap Prod.snd) =
        c.addressed batch ++ c.addressed (groups.flatMap Prod.snd) := List.filterMap_append
    have hfails : c.failing sendWorker (batch ++ groups.flatMap Prod.snd) =
        c.failing sendWorker batch ++ c.failing sendWorker (groups.flatMap Prod.snd) :=
      List.filter_append ..
    rw [List.flatMap_cons, happend, hfails]
    cases key with
    | none =>
      rw [addressed_of_skipped hskipped₁, failing_of_skipped hskipped₁, List.nil_append,
        List.nil_append]
      exact hgroups failed
    | some info =>
      rw [sendGroups, addressed_of_oneUrl hone₁, failing_of_oneUrl hone₁]
      cases hsend : sendWorker info.url with
      | none => exact absurd hsend (hanswer info rfl)
      | some sent =>
        cases sent with
        | true =>
          obtain ⟨hpackets, hreturns⟩ := hgroups failed
          exact ⟨congrArg (batch.map (fun s => (s, info.url)) ++ ·) hpackets, hreturns⟩
        | false =>
          obtain ⟨hpackets, hreturns⟩ := hgroups (failed ++ batch)
          rw [List.append_assoc] at hreturns
          exact ⟨congrArg (batch.map (fun s => (s, info.url)) ++ ·) hpackets, hreturns⟩

/-- **What `requestBatchWorker` has to compare**: it gets through its groups on
serials of one kind. -/
theorem groupby_getConnectionInfo_iff {serials : List String} :
    (groupby keyEq c.getConnectionInfo serials).2 = false ↔
      (∀ s ∈ serials, (c.getConnectionInfo s).isSome) ∨
        ∀ s ∈ serials, c.getConnectionInfo s = none := by
  rw [groupby_raises_iff keyEq_eq_none_iff]
  constructor
  · intro h
    match serials with
    | [] => exact Or.inl fun s hs => absurd hs List.not_mem_nil
    | first :: serials =>
      have hall := fun s hs => h s hs first List.mem_cons_self
      cases hkey : c.getConnectionInfo first with
      | some p =>
        refine Or.inl fun s hs => ?_
        rw [hall s hs, hkey, Option.isSome_some]
      | none =>
        refine Or.inr fun s hs => Option.isSome_eq_false_iff.mp ?_ |> Option.isNone_iff_eq_none.mp
        rw [hall s hs, hkey, Option.isSome_none]
  · rintro (h | h) s hs s' hs'
    · rw [h s hs, h s' hs']
    · rw [h s hs, h s' hs']

/-- The groups of known serials are of one worker each exactly where none runs
on. -/
theorem oneUrl_groupby_iff (hc : c.Coherent) {serials : List String}
    (hknown : ∀ s ∈ serials, (c.getConnectionInfo s).isSome) :
    (∀ group ∈ (groupby keyEq c.getConnectionInfo serials).1, c.OneUrl group) ↔
      Straight (serials.filterMap c.getConnectionInfo) := by
  match serials with
  | [] => exact iff_of_true (fun group hgroup => absurd hgroup List.not_mem_nil) straight_nil
  | s :: serials =>
    obtain ⟨hs, hknown⟩ := List.forall_mem_cons.mp hknown
    obtain ⟨p, hp⟩ := Option.isSome_iff_exists.mp hs
    rw [groupby, hp, oneUrl_groupFrom_iff hc hp hknown, and_iff_right (oneUrl_singleton hp),
      List.filterMap_cons_some hp, straight_cons]

/-- The groups of serials of one kind are of that kind. -/
theorem skipped_groupby {serials : List String}
    (hkind : (∀ s ∈ serials, (c.getConnectionInfo s).isSome) ∨
      ∀ s ∈ serials, c.getConnectionInfo s = none) :
    ∀ group ∈ (groupby keyEq c.getConnectionInfo serials).1, c.Skipped group := by
  intro group hgroup hnone s hs
  rcases hkind with hknown | hunknown
  · have hkey : group.1.isSome = true :=
      forall_key_groupby (Q := fun k => k.isSome = true) hknown group hgroup
    rw [hnone] at hkey
    cases hkey
  · have hpieces := flatMap_groupby (groupby_getConnectionInfo_iff.mpr (Or.inr hunknown))
    refine hunknown s ?_
    rw [← hpieces]
    exact List.mem_flatMap.mpr ⟨group, hgroup, hs⟩

/-- **When a batch is sent as asked.** Every occurrence of a known serial is in
exactly one packet, to its own worker, and the failed ones are returned, if and
only if the serials are all known or all unknown, no group runs on into another
worker's, and no `emit` raises. -/
theorem requestBatchWorker_iff (hc : c.Coherent) (sendWorker : String → Option Bool)
    (serials : List String) (event : String) (data : δ) :
    c.BatchSent sendWorker serials event data
        (c.requestBatchWorker sendWorker serials event data) ↔
      ((∀ s ∈ serials, (c.getConnectionInfo s).isSome) ∨
        ∀ s ∈ serials, c.getConnectionInfo s = none) ∧
      Straight (serials.filterMap c.getConnectionInfo) ∧
        ∀ info ∈ serials.filterMap c.getConnectionInfo, sendWorker info.url ≠ none := by
  set groups := groupby keyEq c.getConnectionInfo serials with hgroups
  constructor
  · rintro ⟨hpackets, -, failed, hreturns, -⟩
    obtain ⟨hraised, hsent⟩ := sent_of_sendGroups hreturns
    have hkind := groupby_getConnectionInfo_iff.mp hraised
    have hpieces := flatMap_groupby hraised
    -- a serial is in the packet of its group, so it is on the url of that packet
    have hone : ∀ group ∈ groups.1, c.OneUrl group := by
      intro group hgroup info hinfo s hs
      have hmem : (s, info.url) ∈ c.addressed serials := by
        refine hpackets.subset (List.mem_flatMap.mpr ⟨_, (hsent group hgroup info hinfo).2, ?_⟩)
        exact List.mem_map.mpr ⟨s, hs, rfl⟩
      obtain ⟨t, -, ht⟩ := List.mem_filterMap.mp hmem
      obtain ⟨q, hq, heq⟩ := Option.map_eq_some_iff.mp ht
      obtain ⟨rfl, hurl⟩ := Prod.mk.inj heq
      rw [hq, Option.map_some, hurl]
    refine ⟨hkind, ?_, fun info hinfo => ?_⟩
    · rcases hkind with hknown | hunknown
      · exact (oneUrl_groupby_iff hc hknown).mp hone
      · rw [List.filterMap_eq_nil_iff.mpr hunknown]
        exact straight_nil
    · obtain ⟨s, hs, hinfo⟩ := List.mem_filterMap.mp hinfo
      obtain ⟨group, hgroup, hsgroup⟩ := List.mem_flatMap.mp (hpieces.symm ▸ hs)
      cases hkey : group.1 with
      | none =>
        rw [skipped_groupby hkind group hgroup hkey s hsgroup] at hinfo
        cases hinfo
      | some first =>
        have hurl := hone group hgroup first hkey s hsgroup
        rw [hinfo, Option.map_some, Option.some.injEq] at hurl
        rw [hurl]
        exact (hsent group hgroup first hkey).1
  · rintro ⟨hkind, hstraight, hanswers⟩
    have hraised : groups.2 = false := groupby_getConnectionInfo_iff.mpr hkind
    have hone : ∀ group ∈ groups.1, c.OneUrl group := by
      rcases hkind with hknown | hunknown
      · exact (oneUrl_groupby_iff hc hknown).mpr hstraight
      · intro group hgroup info hinfo
        have hkey : group.1 = none :=
          forall_key_groupby (Q := fun k => k = none) hunknown group hgroup
        cases hkey.symm.trans hinfo
    have hanswer : ∀ group ∈ groups.1, ∀ info ∈ group.1, sendWorker info.url ≠ none :=
      forall_key_groupby (Q := fun k => ∀ info ∈ k, sendWorker info.url ≠ none)
        fun s hs info hinfo => hanswers info (List.mem_filterMap.mpr ⟨s, hs, hinfo⟩)
    have hspec := sendGroups_spec event data hone (skipped_groupby hkind) hanswer []
    rw [flatMap_groupby hraised] at hspec
    obtain ⟨hpackets, hreturns⟩ := hspec
    rw [requestBatchWorker, ← hgroups, hraised]
    refine ⟨?_, payload_sendGroups _ _, _, hreturns, List.Perm.refl _⟩
    rw [hpackets]

/-! ### The infos control sends -/

theorem Inv.coherent (h : c.Inv) : c.Coherent := fun p hp q hq hoid =>
  congrArg Prod.snd (h.oid_inj p hp q hq hoid)

/-- On what control sends no group runs on: a port is an integer, and an ip is a
string. -/
theorem Inv.straight (h : c.Inv) (serials : List String) :
    Straight (serials.filterMap c.getConnectionInfo) := by
  intro info rest hsuffix hport
  obtain ⟨s, -, hs⟩ := List.mem_filterMap.mp (hsuffix.subset List.mem_cons_self)
  obtain ⟨oid, row, hrow⟩ := h.ofRow _ (getConnectionInfo_eq_some.mp hs)
  obtain rfl : info = .ofRow oid row := hrow
  cases hport

end Loop

/-- A client with one serial. -/
def oneSerial : Client := start.addRow ⟨"A", "10.0.0.2", 8081⟩

theorem inv_oneSerial : oneSerial.Inv := inv_addRow inv_start _

/-- Its worker cannot be reached: both occurrences are returned. -/
theorem batchSent_oneSerial :
    oneSerial.BatchSent (fun _ => some false) ["A", "A"] "evaluate" ()
      (oneSerial.requestBatchWorker (fun _ => some false) ["A", "A"] "evaluate" ()) := by
  refine (requestBatchWorker_iff inv_oneSerial.coherent _ _ _ _).mpr
    ⟨Or.inl (by decide), inv_oneSerial.straight _, fun _ _ => Option.some_ne_none false⟩

/-- A serial next to one that is not tracked: the call raises. -/
theorem unknownSerial_raises :
    oneSerial.Coherent ∧ ¬oneSerial.BatchSent (fun _ => some true) ["A", "B"] "evaluate" ()
      (oneSerial.requestBatchWorker (fun _ => some true) ["A", "B"] "evaluate" ()) := by
  refine ⟨inv_oneSerial.coherent, fun hsent => ?_⟩
  obtain ⟨failed, hreturns, -⟩ := hsent.returns
  have hraises : (oneSerial.requestBatchWorker (fun _ => some true) ["A", "B"] "evaluate" ()).2 =
      none := by decide
  cases hraises.symm.trans hreturns

end Client

/-! ### The batches of `evaluate` -/

namespace PulseCountClient

variable {ν δ : Type*} {event : String} {data : δ}

/-- What `sendWorker` returns to the call of `evaluate`, where every `emit` goes
well (`ok`) or raises. -/
def answers (s : PulseCountClient ν) (ok : Bool) (url : String) : Option Bool :=
  if s.hasSocket url then if ok then some true else none else some false

/-- The state behind the batch, with the outcome of `requestBatchWorker`. -/
def afterBatch (s : PulseCountClient ν) (ok : Bool)
    (outcome : List (Packet δ) × Option (List String)) : PulseCountClient ν :=
  { s with
    call := if outcome.2.isSome then .entering else .raised
    sent := s.sent ++
      (outcome.1.filter fun p => decide (s.answers ok p.url = some true)).flatMap Packet.serial }

/-- Without a packet nothing is sent. -/
@[simp]
theorem afterBatch_nil {s : PulseCountClient ν} {ok : Bool} {returned : Option (List String)} :
    s.afterBatch ok (([], returned) : List (Packet δ) × Option (List String)) =
      { s with call := if returned.isSome then .entering else .raised } := by
  rw [afterBatch, List.filter_nil, List.flatMap_nil, List.append_nil]

/-- The call goes on with its next groups. -/
theorem afterBatch_cons {s : PulseCountClient ν} {ok : Bool} {p : Packet δ}
    {outcome : List (Packet δ) × Option (List String)} :
    s.afterBatch ok (p :: outcome.1, outcome.2) =
      afterBatch { s with
        sent := s.sent ++ if s.answers ok p.url = some true then p.serial else [] } ok outcome := by
  have hanswers : ∀ l, answers { s with sent := l } ok = s.answers ok := fun _ => rfl
  simp only [afterBatch, hanswers, PulseCountClient.mk.injEq, true_and, and_true, List.append_assoc]
  split <;> simp_all

/-- Steps of the call only, each with the same outcome of its `emit`. -/
abbrev GoesOn (ok : Bool) (s s' : PulseCountClient ν) : Prop :=
  (machine ν).ReachesBy (fun _ i => i = .run ok) s s'

theorem goesOn_head {ok : Bool} {s t s' : PulseCountClient ν} (hstep : s.stepCall ok = some t)
    (h : GoesOn ok t s') : GoesOn ok s s' :=
  Machine.ReachesBy.head rfl hstep h

/-- A group is sent, and the call goes on behind it as told. -/
theorem goesOn_sending {s : PulseCountClient ν} {ok : Bool} {group : Group} {groups : List Group}
    {raised : Bool} {serials failed : List String} {ahead : Option Group}
    (hcall : s.call = .sending group serials ahead failed)
    (h : ∀ (l failed : List String), GoesOn ok
      { s with
        call := .grouping serials ahead failed
        sent := l }
      (afterBatch { s with sent := l } ok
        (Client.sendGroups (s.answers ok) event data raised groups failed))) :
    GoesOn ok s (s.afterBatch ok
      (Client.sendGroups (s.answers ok) event data raised (group :: groups) failed)) := by
  obtain ⟨key, batch⟩ := group
  cases key with
  | none =>
    have hstep : s.stepCall ok = some { s with call := .grouping serials ahead failed } := by
      rw [stepCall, hcall]
    exact goesOn_head hstep (h s.sent failed)
  | some info =>
    rw [Client.sendGroups, afterBatch_cons]
    by_cases hsocket : s.hasSocket info.url = true
    · cases ok with
      | true =>
        have hanswer : s.answers true info.url = some true := by
          rw [answers, if_pos hsocket, if_pos rfl]
        have hstep : s.stepCall true = some { s with
            call := .grouping serials ahead failed
            sent := s.sent ++ batch } := by
          rw [stepCall, hcall]
          simp only [hsocket, if_true]
        rw [hanswer, if_pos rfl]
        exact goesOn_head hstep (h (s.sent ++ batch) failed)
      | false =>
        have hanswer : s.answers false info.url = none := by
          rw [answers, if_pos hsocket, if_neg Bool.false_ne_true]
        have hstep : s.stepCall false = some { s with call := .raised } := by
          rw [stepCall, hcall]
          simp only [hsocket, if_true, Bool.false_eq_true, if_false]
        rw [hanswer, if_neg (Option.some_ne_none true).symm]
        rw [List.append_nil]
        exact goesOn_head hstep (afterBatch_nil (s := s) ▸ Machine.ReachesBy.refl _)
    · have hanswer : s.answers ok info.url = some false := by rw [answers, if_neg hsocket]
      have hstep : s.stepCall ok = some { s with
          call := .grouping serials ahead (failed ++ batch) } := by
        rw [stepCall, hcall]
        simp only [if_neg hsocket]
      rw [hanswer, if_neg (by simp), List.append_nil]
      exact goesOn_head hstep (h s.sent (failed ++ batch))

/-- The call goes on with a group that is open. -/
theorem goesOn_grouping {s : PulseCountClient ν} {ok : Bool} {group : Group}
    {serials failed : List String} (hcall : s.call = .grouping serials (some group) failed) :
    GoesOn ok s (s.afterBatch ok (Client.sendGroups (s.answers ok) event data
      (groupFrom keyEq s.client.getConnectionInfo group serials).2
      (groupFrom keyEq s.client.getConnectionInfo group serials).1 failed)) := by
  induction serials generalizing s group failed with
  | nil =>
    have hstep : s.stepCall ok = some { s with call := .sending group [] none failed } := by
      rw [stepCall, hcall]
      rfl
    refine goesOn_head hstep (goesOn_sending rfl fun l failed => goesOn_head rfl ?_)
    rw [Client.sendGroups, afterBatch_nil]
    exact Machine.ReachesBy.refl _
  | cons serial serials ih =>
    cases heq : keyEq group.1 (s.client.getConnectionInfo serial) with
    | none =>
      have hstep : s.stepCall ok = some { s with call := .raised } := by
        rw [stepCall, hcall]
        simp only [stepGroup, heq]
      rw [groupFrom_cons_of_none heq, Client.sendGroups, afterBatch_nil]
      exact goesOn_head hstep (Machine.ReachesBy.refl _)
    | some same =>
      cases same with
      | true =>
        have hstep : s.stepCall ok = some { s with
            call := .grouping serials (some (group.1, group.2 ++ [serial])) failed } := by
          rw [stepCall, hcall]
          simp only [stepGroup, heq]
        rw [groupFrom_cons_of_true heq]
        exact goesOn_head hstep (ih rfl)
      | false =>
        have hstep : s.stepCall ok = some { s with
            call := .sending group serials
              (some (s.client.getConnectionInfo serial, [serial])) failed } := by
          rw [stepCall, hcall]
          simp only [stepGroup, heq]
        rw [groupFrom_cons_of_false heq]
        exact goesOn_head hstep (goesOn_sending rfl fun l failed => ih rfl)

/-- **The steps of `evaluate` through its batch** do what `requestBatchWorker`
does, where nothing else happens in between. -/
theorem goesOn_batch {s : PulseCountClient ν} {ok : Bool} {serials : List String}
    (hcall : s.call = .grouping serials none []) :
    GoesOn ok s
      (s.afterBatch ok (s.client.requestBatchWorker (s.answers ok) serials event data)) := by
  cases serials with
  | nil =>
    have hstep : s.stepCall ok = some { s with call := .entering } := by
      rw [stepCall, hcall]
      rfl
    rw [Client.requestBatchWorker, groupby, Client.sendGroups, afterBatch_nil]
    exact goesOn_head hstep (Machine.ReachesBy.refl _)
  | cons serial serials =>
    have hstep : s.stepCall ok = some { s with
        call := .grouping serials (some (s.client.getConnectionInfo serial, [serial])) [] } := by
      rw [stepCall, hcall]
      rfl
    exact goesOn_head hstep (goesOn_grouping rfl)

end PulseCountClient

end UsbipIce
