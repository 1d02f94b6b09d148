import UsbipIce.Fleet.Fleet
import UsbipIce.Worker.Lifecycle

/-!
# An available device has no reservation

Neither side looks at the other: a worker writes the status `available` without
looking at `Reservations`, and `makeReservations` inserts there on the strength
of the status. They agree because the right to use a device is never doubled
(`UsbipIce.Fleet.rights`). It is with the status `available`, with the row in
`Reservations`, with the `/unreserve` that follows it, or with the default
flash cycle in the device that may come to announce it again
(`UsbipIce.Worker.ration`); each operation passes it on, and a lost message
loses it.

A late `/reserve` does no harm here: what it asks for announces nothing.
-/

namespace UsbipIce

open Lib Worker Database StateTable

namespace Fleet

variable {α : Type*} {s t : Fleet α}

/-- The right as the database shows it. -/
def stake (db : Database) (a : String) : ℕ :=
  (if db.status a = some .available then 1 else 0) + if db.IsReserved a then 1 else 0

/-- How often the right to use a device is around: in the database, in the
`/unreserve` messages in flight, and in the announcements its worker may come
to. -/
def rights (s : Fleet α) (a : String) : ℕ :=
  stake s.db a + s.messages.countP (Message.unreserves a) + (s.devices a).elim 0 ration.supply

/-- **What every run of the fleet keeps.** -/
structure Inv (s : Fleet α) : Prop where
  single : ∀ a, s.rights a ≤ 1
  /-- A device without a row is not there, and nobody gives it back. -/
  known : ∀ a, s.db.status a = none →
    s.devices a = none ∧ s.messages.countP (Message.unreserves a) = 0
  origin : ∀ a d, s.devices a = some d → states.Origin d

/-! ### Messages -/

@[simp] theorem countP_unreserves_requests (a : String) (l : List (Control.ReserveRequest α)) :
    (l.map Message.reserve).countP (Message.unreserves a) = 0 :=
  List.countP_eq_zero.mpr fun m hm => by
    obtain ⟨request, -, rfl⟩ := List.mem_map.mp hm
    exact Bool.false_ne_true

/-- The `/unreserve` messages about one device, among those for a list of
rows. -/
theorem countP_unreserves_rows (a : String) (rows : List EndedRow) :
    (rows.map (Message.unreserve (α := α))).countP (Message.unreserves a) =
      (rows.map EndedRow.serial).count a := by
  rw [List.countP_map, List.count, List.countP_map]
  refine List.countP_congr fun row _ => ?_
  simp [Message.unreserves]

theorem countP_unreserves_eraseIdx {l : List (Message α)} {k : ℕ} {m : Message α}
    (hk : l[k]? = some m) (a : String) : l.countP (Message.unreserves a) =
      (l.eraseIdx k).countP (Message.unreserves a) + if m.unreserves a then 1 else 0 :=
  countP_eraseIdx _ hk

/-- An `/unreserve` in flight turns into an announcement to come. -/
@[simp] theorem supply_handle (d : Device StateFactory) (m : Message α) :
    ration.supply (m.handle d) = ration.supply d + if m.unreserves m.serial then 1 else 0 := by
  match m with
  | .reserve request => exact supply_handleReserve d request.kind
  | .unreserve row =>
    rw [Message.handle, supply_handleUnreserve, if_pos]
    exact decide_eq_true rfl

theorem origin_handle {d : Device StateFactory} (m : Message α) (h : states.Origin d) :
    states.Origin (m.handle d) := by
  match m with
  | .reserve request => exact origin_handleReserve h request.kind
  | .unreserve row => exact origin_handleUnreserve h

/-! ### What one operation passes on -/

/-- Fewer messages keep the invariant. -/
theorem Inv.eraseIdx (h : s.Inv) {k : ℕ} {m : Message α} (hk : s.messages[k]? = some m) :
    Inv { s with messages := s.messages.eraseIdx k } where
  single := fun a => by
    have hold := h.single a
    rw [rights, countP_unreserves_eraseIdx hk a] at hold
    simp only [rights]
    omega
  known := fun a ha => by
    obtain ⟨hd, hzero⟩ := h.known a ha
    rw [countP_unreserves_eraseIdx hk a] at hzero
    exact ⟨hd, (Nat.add_eq_zero_iff.mp hzero).1⟩
  origin := h.origin

/-- **A device changes** for one of at most the same supply, once its effect on
the database is accounted for. -/
theorem Inv.setDevice (h : s.Inv) {a : String} {d d' : Device StateFactory} {db : Database}
    (hd : s.devices a = some d) (horigin : states.Origin d')
    (hother : ∀ b, b ≠ a → stake db b = stake s.db b)
    (hself : stake db a + ration.supply d' + s.messages.countP (Message.unreserves a) ≤ 1)
    (hknown : ∀ b, db.status b = none → s.db.status b = none) :
    Inv { s with db := db, devices := Function.update s.devices a (some d') } where
  single := fun b => by
    by_cases hb : b = a
    · subst hb
      simp only [rights, Function.update_self, Option.elim_some]
      omega
    · have hold := h.single b
      simp only [rights, Function.update_of_ne hb, hother b hb] at hold ⊢
      exact hold
  known := fun b hb => by
    obtain ⟨hnone, hzero⟩ := h.known b (hknown b hb)
    refine ⟨?_, hzero⟩
    have hne : b ≠ a := fun heq => by
      rw [heq, hd] at hnone
      cases hnone
    exact (Function.update_of_ne hne _ _).trans hnone
  origin := fun b d₁ hd₁ => by
    obtain ⟨rfl, rfl⟩ | ⟨-, hd₁⟩ := eq_or_of_update hd₁
    · exact horigin
    · exact h.origin b d₁ hd₁

/-- **A message is handled**: an `/unreserve` turns into a flash cycle. -/
theorem Inv.deliver (h : s.Inv) {k : ℕ} {m : Message α} (hk : s.messages[k]? = some m) :
    Inv ({ s with messages := s.messages.eraseIdx k }.receive m) := by
  have herase := h.eraseIdx hk
  rw [receive]
  split
  · rename_i w d hw hd
    split
    · have hold := h.single m.serial
      rw [rights, countP_unreserves_eraseIdx hk, show s.devices m.serial = some d from hd,
        Option.elim_some] at hold
      refine herase.setDevice hd (origin_handle m (h.origin _ d hd)) (fun _ _ => rfl) ?_ fun _ => id
      rw [supply_handle]
      show stake s.db m.serial + _ + (s.messages.eraseIdx k).countP _ ≤ 1
      omega
    · exact herase
  · exact herase

/-- **A step inside a device**: an announcement takes one of its supply. -/
theorem Inv.stepDevice (h : s.Inv) {a : String} {d d' : Device StateFactory}
    {i : DeviceStep Outside}
    {e : Option Effect} (hd : s.devices a = some d) (hstep : states.step d i = some (d', e)) :
    Inv { s with db := report s.db a e, devices := Function.update s.devices a (some d') } := by
  have hrule := rule_of_step hstep
  have horigin := h.origin a d hd
  have hsupply := ration.supply_rule horigin hrule
  have hold := h.single a
  rw [rights, hd, Option.elim_some] at hold
  have hquiet : report s.db a e = s.db → Inv
      { s with db := report s.db a e, devices := Function.update s.devices a (some d') } := by
    intro heq
    refine
      h.setDevice hd (origin_rule horigin hrule) (fun _ _ => by rw [heq]) ?_ fun b hb => heq ▸ hb
    rw [heq]
    omega
  match e with
  | none | some (.exit o) | some (.start o) | some (.dispatch m o) => exact hquiet rfl
  | some (.status st) =>
    match hdb : s.db.updateDeviceStatus a st with
    | none =>
      refine hquiet ?_
      rw [report, hdb]
      rfl
    | some db =>
      have heq : report s.db a (some (.status st)) = db := by
        rw [report, hdb]
        rfl
      rw [heq]
      obtain ⟨hstatus, hres, -⟩ := updateDeviceStatus_spec hdb
      refine h.setDevice hd (origin_rule horigin hrule) (fun b hb => ?_) ?_ fun b hb => ?_
      · simp only [stake, hstatus b, if_neg hb, isReserved_congr hres]
      · have hnew : stake db a ≤ stake s.db a + Ration.cost (some (.status st)) := by
          have hcost : (if some st = some DeviceState.available then 1 else 0) =
              Ration.cost (some (.status st)) := by cases st <;> rfl
          simp only [stake, hstatus a, if_pos, isReserved_congr hres, hcost]
          omega
        omega
      · rw [hstatus] at hb
        split at hb
        · cases hb
        · exact hb

/-- **Reservations are made**: the status passes the right on to the row. -/
theorem Inv.reserve (h : s.Inv) {clientId kind : String} {amount now : ℤ} {args : α}
    {res : List ReservedRow} {schedule : List LoopInput}
    (hstep : s.reserve clientId amount kind args now res schedule = some t) : t.Inv := by
  obtain ⟨⟨db, rows⟩, hdb, hstep⟩ := Option.bind_eq_some_iff.mp hstep
  obtain ⟨l, hrun, hstep⟩ := Option.bind_eq_some_iff.mp hstep
  obtain ⟨-, -, hpicked, hstatus, hreserved, -⟩ := makeReservations_spec hdb
  split at hstep
  · obtain rfl := Option.some.inj hstep
    have hcount : ∀ a, (s.messages ++ (Control.requests kind args l).map Message.reserve).countP
        (Message.unreserves a) = s.messages.countP (Message.unreserves a) := fun a => by
      rw [List.countP_append, countP_unreserves_requests, add_zero]
    refine ⟨fun a => ?_, fun a ha => ?_, h.origin⟩
    · have hold := h.single a
      simp only [rights, stake, hcount, hstatus a, hreserved a] at hold ⊢
      by_cases ha : a ∈ res.map ReservedRow.serial
      · obtain ⟨havail, hfree⟩ := hpicked a ha
        simp only [havail, hfree, ha, if_true, if_false, or_true] at hold ⊢
        simpa using hold
      · simpa only [ha, if_false, or_false] using hold
    · have hnone : s.db.status a = none := by
        rw [hstatus] at ha
        split at ha
        · cases ha
        · exact ha
      exact ⟨(h.known a hnone).1, (hcount a).trans (h.known a hnone).2⟩
  · cases hstep

/-- **Reservations end**: the rows pass the right on to `/unreserve` messages. -/
theorem Inv.notifyEnd (h : s.Inv) {res : List String} (hres : ∀ a ∈ res, s.db.IsReserved a)
    (hnodup : res.Nodup) : Inv (s.notifyEnd (s.db.endStaged res)) := by
  obtain ⟨hstatus, hreserved, -⟩ := endStaged_spec hres
  have hcount : ∀ a, (s.messages ++ (s.db.endStaged res).2.map Message.unreserve).countP
      (Message.unreserves a) =
        s.messages.countP (Message.unreserves a) + if a ∈ res then 1 else 0 := fun a => by
    have hrows : ((s.db.endStaged res).2.map (Message.unreserve (α := α))).countP
        (Message.unreserves a) = res.count a := by
      rw [countP_unreserves_rows]
      exact congrArg (List.count a) (endedRows_serials hres)
    rw [List.countP_append, hrows, hnodup.count]
  refine ⟨fun a => ?_, fun a ha => ?_, h.origin⟩
  · have hold := h.single a
    simp only [rights, stake, Fleet.notifyEnd, hcount, hstatus a, hreserved a] at hold ⊢
    by_cases ha : a ∈ res
    · simp only [hres a ha, ha, if_true, not_true_eq_false, and_false, if_false] at hold ⊢
      rw [if_neg (by simp)]
      omega
    · simpa only [ha, if_false, not_false_eq_true, and_true, add_zero] using hold
  · have ha' : s.db.status a = none ∧ a ∉ res := by
      have ha' := (hstatus a).symm.trans ha
      split at ha'
      · cases ha'
      · exact ⟨ha', ‹_›⟩
    obtain ⟨hd, hzero⟩ := h.known a ha'.1
    exact ⟨hd, (hcount a).trans (by rw [hzero, if_neg ha'.2])⟩

/-- **A device appears**, with one announcement to come. -/
theorem Inv.addDevice (h : s.Inv) {serial worker : String} {db : Database}
    (hdb : s.db.addDevice serial worker = some db) :
    Inv { s with db := db, devices := Function.update s.devices serial (some states.init) } := by
  obtain ⟨hnew, hstatus, hres, -⟩ := addDevice_spec hdb
  have hfree : ¬s.db.IsReserved serial := fun hin => status_eq_none.mp hnew hin.mem_keys
  obtain ⟨-, hzero⟩ := h.known serial hnew
  have hother : ∀ a, a ≠ serial → db.status a = s.db.status a := fun a ha => by
    rw [hstatus, if_neg ha]
  refine ⟨fun a => ?_, fun a ha => ?_, fun a d hd => ?_⟩
  · by_cases ha : a = serial
    · subst ha
      simp only [rights, stake, hstatus a, isReserved_congr hres, hfree, hzero,
        Function.update_self, Option.elim_some, supply_init]
      simp
    · have hold := h.single a
      simp only [rights, stake, hother a ha, isReserved_congr hres,
        Function.update_of_ne ha] at hold ⊢
      exact hold
  · have ha' : a ≠ serial := by
      rintro rfl
      rw [hstatus, if_pos rfl] at ha
      cases ha
    obtain ⟨hd, hzero⟩ := h.known a (hother a ha' ▸ ha)
    exact ⟨(Function.update_of_ne ha' _ _).trans hd, hzero⟩
  · obtain ⟨rfl, rfl⟩ | ⟨-, hd⟩ := eq_or_of_update hd
    · exact origin_init
    · exact h.origin a d hd

/-! ### Every run -/

theorem inv_step {i : FleetInput α} (h : s.Inv) (hstep : s.step i = some t) : t.Inv := by
  match i with
  | .addDevice serial worker =>
    rw [step] at hstep
    split at hstep
    · cases hstep
    · obtain ⟨db, hdb, rfl⟩ := Option.map_eq_some_iff.mp hstep
      exact h.addDevice hdb
  | .reserve .. => exact h.reserve hstep
  | .endSome clientId serials =>
    obtain rfl := Option.some.inj hstep
    obtain ⟨hres, hnodup⟩ := staged_spec s.db fun r =>
      r.clientName = clientId ∧ r.device ∈ serials
    exact h.notifyEnd hres hnodup
  | .endAll clientId =>
    obtain rfl := Option.some.inj hstep
    obtain ⟨hres, hnodup⟩ := staged_spec s.db fun r => r.clientName = clientId
    exact h.notifyEnd hres hnodup
  | .deliver k =>
    obtain ⟨m, hk, rfl⟩ := Option.map_eq_some_iff.mp hstep
    exact h.deliver hk
  | .lose k =>
    obtain ⟨m, hk, rfl⟩ := Option.map_eq_some_iff.mp hstep
    exact h.eraseIdx hk
  | .device serial j =>
    obtain ⟨d, hd, hstep⟩ := Option.bind_eq_some_iff.mp hstep
    obtain ⟨⟨d', e⟩, hdev, rfl⟩ := Option.map_eq_some_iff.mp hstep
    exact h.stepDevice hd hdev

theorem inv_start (workers : Table WorkerRow WorkerRow.workerName) :
    (start workers : Fleet α).Inv where
  single := fun a => by
    have hstatus : (start workers : Fleet α).db.status a = none := rfl
    have hfree : ¬(start workers : Fleet α).db.IsReserved a := List.not_mem_nil
    simp only [rights, stake, hstatus, hfree]
    simp [start]
  known := fun a _ => ⟨rfl, rfl⟩
  origin := fun a d hd => by cases hd

/-- With the status there is no reservation. -/
theorem Inv.not_isReserved (h : s.Inv) {a : String} (ha : s.db.status a = some .available) :
    ¬s.db.IsReserved a := by
  intro hres
  have hold := h.single a
  rw [rights, stake, if_pos ha, if_pos hres] at hold
  omega

/-- **An available device has no reservation**, in every run of the fleet, and
hence `makeReservations` never finds the primary key of `Reservations` taken:
whichever rows its `LIMIT` picks, it goes through. -/
theorem available_not_reserved {workers : Table WorkerRow WorkerRow.workerName}
    {is : List (FleetInput α)} (hrun : (machine α).run (start workers) is = some s) :
    (∀ a, s.db.status a = some .available → ¬s.db.IsReserved a) ∧
      ∀ (amount now : ℤ) (clientId : String) (res : List ReservedRow), 0 ≤ amount →
        IsLimit amount.toNat s.db.available res →
          (s.db.makeReservations amount clientId now res).isSome := by
  have h : s.Inv := Machine.invariant (fun _ _ _ => inv_step) (inv_start workers) hrun
  exact ⟨fun a => h.not_isReserved, fun amount now clientId res hamount hlim =>
    makeReservations_isSome hamount hlim fun a => h.not_isReserved⟩

/-! ### A device becomes available -/

/-- One worker. -/
def oneWorker : Table WorkerRow WorkerRow.workerName := ⟨[⟨"w1", "10.0.0.1", 8081, 0⟩], by decide⟩

/-- A device appears at it and is flashed, tested and found ready. -/
def deviceBoots : List (FleetInput Unit) := .addDevice "A" "w1" :: boot.map (.device "A")

theorem deviceBoots_run :
    ((machine Unit).run (start oneWorker) deviceBoots).map
      (fun s => (s.db.status "A", s.db.available)) =
        some (some .available, [⟨"A", "10.0.0.1", 8081⟩]) := by
  decide

/-- The device is available, so it is not reserved, and a reservation of it
goes through. -/
theorem deviceBoots_available :
    ∃ s, (machine Unit).run (start oneWorker) deviceBoots = some s ∧
      s.db.status "A" = some .available ∧ ¬s.db.IsReserved "A" ∧
        (s.db.makeReservations 1 "client" 0 [⟨"A", "10.0.0.1", 8081⟩]).isSome := by
  obtain ⟨s, hs, heq⟩ := Option.map_eq_some_iff.mp deviceBoots_run
  obtain ⟨hstatus, havail⟩ := Prod.mk.inj heq
  obtain ⟨hfree, hreserve⟩ := available_not_reserved hs
  refine ⟨s, hs, hstatus, hfree "A" hstatus, hreserve 1 0 "client" _ (by decide) ?_⟩
  rw [havail]
  decide

end Fleet

end UsbipIce
