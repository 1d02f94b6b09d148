import UsbipIce.Fleet.Availability
import UsbipIce.Worker.Homeward

/-!
# Where a device ends up that nobody holds

A device without a reservation and without a message in flight should be in the
default cycle. It is where its messages are handled in the order of the
transactions they come from (`UsbipIce.Fleet.agreement`): the last of them is an
`/unreserve`, which sends it home, and from there nothing but another
reservation takes it away (`UsbipIce.Worker.homeward_rule`).

Nothing in the source sees to that order. `Control.reserve` sends its requests
from threads of their own, and a worker takes any message in any state: a late
`/reserve` leaves a device in a client's state that nobody holds
(`UsbipIce.Fleet.lateReserve_not_home`).
-/

namespace UsbipIce

open Lib Worker Database StateTable

/-- The thread is a handler of a message that waits for the lock of the
device. -/
def DeviceThread.handles {F : Type*} : DeviceThread F → Bool
  | .flashDefault | .deviceSwitch _ => true
  | .timer .. | .stateSwitch .. => false

namespace Fleet

variable {α : Type*} {s t : Fleet α}

/-- The messages in flight about one device. -/
def about (s : Fleet α) (a : String) : List (Message α) :=
  s.messages.filter fun m => decide (m.serial = a)

/-- Somebody holds the device, or is about to give it back. -/
def Held (s : Fleet α) (a : String) : Prop :=
  s.db.IsReserved a ∨ ∃ m ∈ s.messages, m.unreserves a = true

/-- The class of the current object of a device. -/
def stateOf (s : Fleet α) (a : String) : Option StateFactory :=
  (s.devices a).bind fun d => d.current.bind d.factoryOf

/-- **The messages about a device are handled one after another**: no message is
lost, the one that arrives is the oldest about its device, and no handler of an
earlier one is still waiting for the device's lock. -/
def InOrder (s : Fleet α) : FleetInput α → Prop
  | .deliver k => ∀ m ∈ s.messages[k]?, (∀ m' ∈ s.messages.take k, m'.serial ≠ m.serial) ∧
      ∀ d ∈ s.devices m.serial, ∀ t ∈ d.threads, t.handles = false
  | .lose _ => False
  | .addDevice .. | .reserve .. | .endSome .. | .endAll _ | .device .. => True

instance (s : Fleet α) : ∀ i, Decidable (s.InOrder i)
  | .deliver k => inferInstanceAs (Decidable (∀ m ∈ s.messages[k]?,
      (∀ m' ∈ s.messages.take k, m'.serial ≠ m.serial) ∧
        ∀ d ∈ s.devices m.serial, ∀ t ∈ d.threads, t.handles = false))
  | .lose _ => .isFalse id
  | .addDevice .. | .reserve .. | .endSome .. | .endAll _ | .device .. => .isTrue trivial

/-- **What the runs in order keep.** -/
structure Agree (s : Fleet α) : Prop where
  shape : ∀ a d, s.devices a = some d → ∃ log, states.Shape d log
  /-- An `/unreserve` reaches the worker of its device. -/
  addressed : ∀ row, .unreserve row ∈ s.messages → ∃ w, s.db.workerOf row.serial = some w ∧
    (row.workerip, row.workerport) = (w.host, w.serverPort)
  /-- The last message about a device nobody holds gives it back. -/
  answered : ∀ a, ¬s.db.IsReserved a → ∀ m ∈ (s.about a).getLast?, m.unreserves a = true
  /-- A switch to a client's state waits only while somebody holds the device. -/
  client : ∀ a d, s.devices a = some d → ∀ f, .deviceSwitch f ∈ d.threads → Home f ∨ s.Held a
  homeward : ∀ a d, s.devices a = some d → s.Held a ∨ Homeward d
  announced : ∀ a d, s.devices a = some d → s.db.status a = some .available → Announced d

/-! ### Messages -/

theorem serial_of_unreserves {m : Message α} {a : String} (h : m.unreserves a = true) :
    m.serial = a := by
  match m with
  | .reserve request => cases h
  | .unreserve row => exact of_decide_eq_true h

/-- A held device is still held when a message leaves that does not give it
back. -/
theorem Held.eraseIdx {k : ℕ} {m : Message α} (hk : s.messages[k]? = some m) {a : String}
    (hm : m.unreserves a = false) (h : s.Held a) :
    Held { s with messages := s.messages.eraseIdx k } a := by
  rcases h with h | ⟨m', hm', hu⟩
  · exact Or.inl h
  · refine Or.inr ⟨m', ?_, hu⟩
    refine ((mem_iff_eq_or_mem_eraseIdx hk).mp hm').resolve_left fun heq => ?_
    rw [heq, hm] at hu
    cases hu

/-! ### Messages arrive -/

/-- What a device does with a message, as the threads it starts. -/
theorem exists_threads_handle (d : Device StateFactory) (m : Message α) :
    ∃ ts, m.handle d = { d with threads := d.threads ++ ts } ∧
      (m.unreserves m.serial = true → .flashDefault ∈ ts) ∧
        ∀ f, .deviceSwitch f ∈ ts → m.unreserves m.serial = false := by
  match m with
  | .reserve request =>
    rw [Message.handle, StateTable.handleReserve]
    split
    · exact ⟨[], by rw [List.append_nil], (fun h => by cases h), fun _ _ => rfl⟩
    · exact ⟨_, rfl, (fun h => by cases h), fun _ _ => rfl⟩
  | .unreserve row => exact ⟨[.flashDefault], rfl, fun _ => List.mem_singleton_self _, by simp⟩

theorem shape_handle {d : Device StateFactory} {log : List Effect} (h : Shape states d log)
    (m : Message α) : Shape states (m.handle d) log := by
  match m with
  | .reserve request =>
    exact shape_step tame_states (r := ⟨d, log⟩) (i := .handleReserve request.kind) h rfl
  | .unreserve row => exact shape_step tame_states (r := ⟨d, log⟩) (i := .handleUnreserve) h rfl

/-- **The oldest message about a device leaves.** Where it is an `/unreserve`,
the device has been sent home by then. -/
theorem Agree.eraseIdx (h : s.Agree) {k : ℕ} {m : Message α} (hk : s.messages[k]? = some m)
    (hfirst : ∀ m' ∈ s.messages.take k, m'.serial ≠ m.serial)
    (hsent : ∀ d, s.devices m.serial = some d → m.unreserves m.serial = true →
      Homeward d ∧ ∀ f, .deviceSwitch f ∈ d.threads → Home f) :
    Agree { s with messages := s.messages.eraseIdx k } := by
  have hheld : ∀ a, s.Held a → Held { s with messages := s.messages.eraseIdx k } a ∨
      m.serial = a ∧ m.unreserves m.serial = true := by
    intro a ha
    by_cases hu : m.unreserves a = true
    · have hserial := serial_of_unreserves hu
      exact Or.inr ⟨hserial, hserial ▸ hu⟩
    · exact Or.inl (ha.eraseIdx hk (Bool.eq_false_iff.mpr hu))
  refine
    { shape := h.shape
      addressed := fun row hrow => h.addressed row (List.mem_of_mem_eraseIdx hrow)
      answered := fun a ha x hx => h.answered a ha x ?_
      client := fun a d hd f hf => ?_
      homeward := fun a d hd => ?_
      announced := h.announced }
  · by_cases heq : m.serial = a
    · have hself : s.about a = m :: about { s with messages := s.messages.eraseIdx k } a :=
        filter_eq_cons_eraseIdx hk (decide_eq_true heq) fun y hy =>
          decide_eq_false (heq ▸ hfirst y hy)
      rw [hself, List.getLast?_cons, Option.mem_def.mp hx]
      rfl
    · rw [about, ← filter_eraseIdx_of_neg hk (decide_eq_false heq)]
      exact hx
  · rcases h.client a d hd f hf with hhome | ha
    · exact Or.inl hhome
    · refine (hheld a ha).symm.imp_left ?_
      rintro ⟨rfl, hu⟩
      exact (hsent d hd hu).2 f hf
  · rcases h.homeward a d hd with ha | hhome
    · refine (hheld a ha).imp_right ?_
      rintro ⟨rfl, hu⟩
      exact (hsent d hd hu).1
    · exact Or.inr hhome

/-- **A device is told** by a message in flight. A `/reserve` finds it held: who
holds it, or an `/unreserve` behind it. -/
theorem Agree.handle (h : s.Agree) {m : Message α} (hm : m ∈ s.messages) {d : Device StateFactory}
    (hd : s.devices m.serial = some d) :
    Agree { s with devices := Function.update s.devices m.serial (some (m.handle d)) } := by
  obtain ⟨ts, hts, -⟩ := exists_threads_handle d m
  have hheld : s.Held m.serial := by
    by_cases hres : s.db.IsReserved m.serial
    · exact Or.inl hres
    have habout : m ∈ s.about m.serial := List.mem_filter.mpr ⟨hm, decide_eq_true rfl⟩
    obtain ⟨x, hx⟩ := Option.isSome_iff_exists.mp
      (List.getLast?_isSome.mpr (List.ne_nil_of_mem habout))
    exact Or.inr ⟨x, (List.mem_filter.mp (List.mem_of_getLast? hx)).1, h.answered _ hres x hx⟩
  refine
    { shape := fun a d' hd' => ?_
      addressed := h.addressed
      answered := h.answered
      client := fun a d' hd' f hf => ?_
      homeward := fun a d' hd' => ?_
      announced := fun a d' hd' hst => ?_ }
  · rcases eq_or_of_update hd' with ⟨rfl, rfl⟩ | ⟨-, hd'⟩
    · obtain ⟨log, hlog⟩ := h.shape _ d hd
      exact ⟨log, shape_handle hlog m⟩
    · exact h.shape a d' hd'
  · rcases eq_or_of_update hd' with ⟨rfl, rfl⟩ | ⟨-, hd'⟩
    · exact Or.inr hheld
    · exact h.client a d' hd' f hf
  · rcases eq_or_of_update hd' with ⟨rfl, rfl⟩ | ⟨-, hd'⟩
    · exact Or.inl hheld
    · exact h.homeward a d' hd'
  · rcases eq_or_of_update hd' with ⟨rfl, rfl⟩ | ⟨-, hd'⟩
    · rw [hts]
      exact (h.announced _ d hd hst).congr (fun _ _ => id) rfl rfl
    · exact h.announced a d' hd' hst

/-- **A message is handled in order.** -/
theorem Agree.deliver (h : s.Agree) {k : ℕ} (hord : s.InOrder (.deliver k)) {m : Message α}
    (hk : s.messages[k]? = some m) :
    Agree ({ s with messages := s.messages.eraseIdx k }.receive m) := by
  obtain ⟨hfirst, hidle⟩ := hord m hk
  have hm : m ∈ s.messages := List.mem_of_getElem? hk
  rw [receive]
  split
  · rename_i w d hw hd
    have hd' : s.devices m.serial = some d := hd
    split
    · refine (h.handle hm hd').eraseIdx hk hfirst fun d₁ hd₁ hu => ?_
      simp only [Function.update_self, Option.some.injEq] at hd₁
      obtain ⟨ts, hts, hflash, hclient⟩ := exists_threads_handle d m
      rw [← hd₁, hts]
      refine ⟨Or.inl ⟨_, List.mem_append_right _ (hflash hu), Or.inl rfl⟩, fun f hf => ?_⟩
      rcases List.mem_append.mp hf with hf | hf
      · exact absurd (hidle d hd' _ hf) (by simp [DeviceThread.handles])
      · exact absurd (hclient f hf) (by simp [hu])
    · rename_i haddress
      refine h.eraseIdx hk hfirst fun d₁ hd₁ hu => absurd ?_ haddress
      cases m with
      | reserve request => cases hu
      | unreserve row =>
        obtain ⟨w', hw', heq⟩ := h.addressed row hm
        obtain rfl : w' = w := Option.some.inj (hw'.symm.trans hw)
        exact heq
  · rename_i hnone
    refine h.eraseIdx hk hfirst fun d hd hu => ?_
    cases m with
    | reserve request => cases hu
    | unreserve row =>
      obtain ⟨w, hw, -⟩ := h.addressed row hm
      exact absurd hd (hnone w d hw)

/-! ### Devices go on -/

/-- What a step of a device tells the database. -/
theorem report_spec (db : Database) (a : String) (e : Option Effect) :
    (report db a e).reservations = db.reservations ∧ (report db a e).workerOf = db.workerOf ∧
      (∀ b, b ≠ a → (report db a e).status b = db.status b) ∧
      ((report db a e).status a = some .available → e = some (.status .available) ∨
        (db.status a = some .available ∧ ∀ st, st ≠ .available → e ≠ some (.status st))) := by
  match e with
  | none | some (.exit o) | some (.start o) | some (.dispatch m o) =>
    exact ⟨rfl, rfl, fun _ _ => rfl, fun h => Or.inr ⟨h, fun st _ => by simp⟩⟩
  | some (.status st) =>
    match hdb : db.updateDeviceStatus a st with
    | none =>
      have heq : report db a (some (.status st)) = db := by
        rw [report, hdb]
        rfl
      rw [heq]
      refine ⟨rfl, rfl, fun _ _ => rfl, fun hst => ?_⟩
      rw [updateDeviceStatus, if_pos (mem_keys_of_status hst)] at hdb
      cases hdb
    | some db' =>
      have heq : report db a (some (.status st)) = db' := by
        rw [report, hdb]
        rfl
      obtain ⟨hstatus, hres, hworker⟩ := updateDeviceStatus_spec hdb
      rw [heq]
      refine ⟨hres, hworker, fun b hb => by rw [hstatus, if_neg hb], fun hst => Or.inl ?_⟩
      rw [hstatus, if_pos rfl] at hst
      rw [Option.some.inj hst]

/-- **A step inside a device.** -/
theorem Agree.stepDevice (h : s.Agree) (hinv : s.Inv) {a : String} {d d' : Device StateFactory}
    {i : DeviceStep Outside} {e : Option Effect} (hd : s.devices a = some d)
    (hstep : states.step d i = some (d', e)) :
    Agree { s with db := report s.db a e, devices := Function.update s.devices a (some d') } := by
  obtain ⟨hres, hworker, hother, hself⟩ := report_spec s.db a e
  have hrule := rule_of_step hstep
  have horigin := hinv.origin a d hd
  obtain ⟨log, hshape⟩ := h.shape a d hd
  have hreserved : (report s.db a e).IsReserved = s.db.IsReserved :=
    funext fun b => propext (isReserved_congr hres b)
  have hheld : ∀ {b}, s.Held b →
      Held { s with db := report s.db a e, devices := Function.update s.devices a (some d') } b :=
    fun {b} hb => hb.imp_left fun hr => (isReserved_congr hres b).mpr hr
  -- where nobody holds the device, it is on its way home and no client's switch waits
  have hfree : ¬s.Held a → Homeward d ∧ ∀ f, .deviceSwitch f ∈ d.threads → Home f := fun hno =>
    ⟨(h.homeward a d hd).resolve_left hno, fun f hf => (h.client a d hd f hf).resolve_right hno⟩
  refine
    { shape := fun b d₁ hd₁ => ?_
      addressed := fun row hrow => by
        rw [hworker]
        exact h.addressed row hrow
      answered := fun b hb => h.answered b (hreserved ▸ hb)
      client := fun b d₁ hd₁ f hf => ?_
      homeward := fun b d₁ hd₁ => ?_
      announced := fun b d₁ hd₁ hst => ?_ }
  · rcases eq_or_of_update hd₁ with ⟨rfl, rfl⟩ | ⟨-, hd₁⟩
    · exact ⟨_, shape_rule tame_states hshape hrule⟩
    · exact h.shape b d₁ hd₁
  · rcases eq_or_of_update hd₁ with ⟨rfl, rfl⟩ | ⟨-, hd₁⟩
    · rcases deviceSwitch_rule hrule hf with hf | hhome
      · exact (h.client b d hd f hf).imp_right hheld
      · exact Or.inl hhome
    · exact (h.client b d₁ hd₁ f hf).imp_right hheld
  · rcases eq_or_of_update hd₁ with ⟨rfl, rfl⟩ | ⟨-, hd₁⟩
    · by_cases hb : s.Held b
      · exact Or.inl (hheld hb)
      · exact Or.inr (homeward_rule (hfree hb).1 horigin (hfree hb).2 hrule)
    · exact (h.homeward b d₁ hd₁).imp_left hheld
  · rcases eq_or_of_update hd₁ with ⟨rfl, rfl⟩ | ⟨hb, hd₁⟩
    · rcases hself hst with he | ⟨hst, he⟩
      · exact announced_of_status horigin hshape hrule he
      · -- the right to the device is with the status: nobody holds it, and nothing is to come
        have hrights := hinv.single b
        rw [rights, stake, if_pos hst, hd, Option.elim_some] at hrights
        have hno : ¬s.Held b := by
          rintro (hres | ⟨m, hm, hu⟩)
          · exact hinv.not_isReserved hst hres
          · have hpos := List.countP_pos_iff.mpr ⟨m, hm, hu⟩
            omega
        refine (announced_rule (h.announced b d hd hst) horigin (by omega) (hfree hno).1
          (hfree hno).2 hrule).resolve_right ?_
        rintro ⟨st, hne, heq⟩
        exact he st hne heq
    · exact h.announced b d₁ hd₁ ((hother b hb).symm.trans hst)

/-! ### Control goes on -/

/-- **Reservations are made**: the devices are held from now on. -/
theorem Agree.reserve (h : s.Agree) {clientId kind : String} {amount now : ℤ} {args : α}
    {res : List ReservedRow} {schedule : List LoopInput}
    (hstep : s.reserve clientId amount kind args now res schedule = some t) : t.Agree := by
  obtain ⟨⟨db, rows⟩, hdb, hloop⟩ := Option.bind_eq_some_iff.mp hstep
  obtain ⟨l, hrun, hsend⟩ := Option.bind_eq_some_iff.mp hloop
  obtain ⟨rfl, -, -, hstatus, hreserved, hworker⟩ := makeReservations_spec hdb
  split at hsend
  · obtain rfl := Option.some.inj hsend
    have hheld : ∀ {a}, s.Held a → Held
        { s with
          db := db
          messages := s.messages ++ (Control.requests kind args l).map .reserve } a := by
      rintro a (ha | ⟨m, hm, hu⟩)
      · exact Or.inl ((hreserved a).mpr (Or.inl ha))
      · exact Or.inr ⟨m, List.mem_append_left _ hm, hu⟩
    refine
      { shape := h.shape
        addressed := fun row hrow => ?_
        answered := fun a ha x hx => ?_
        client := fun a d hd f hf => (h.client a d hd f hf).imp_right hheld
        homeward := fun a d hd => (h.homeward a d hd).imp_left hheld
        announced := fun a d hd hst => h.announced a d hd ?_ }
    · rcases List.mem_append.mp hrow with hrow | hrow
      · rw [hworker]
        exact h.addressed row hrow
      · obtain ⟨request, -, heq⟩ := List.mem_map.mp hrow
        cases heq
    · -- the new messages are about devices that are reserved
      rw [hreserved, not_or] at ha
      refine h.answered a ha.1 x ?_
      have hnil : ((Control.requests kind args l).map Message.reserve).filter
          (fun m => decide (m.serial = a)) = [] := by
        refine List.filter_eq_nil_iff.mpr fun m hm => ?_
        obtain ⟨request, hrequest, rfl⟩ := List.mem_map.mp hm
        refine fun heq => ha.2 ?_
        rw [← of_decide_eq_true heq]
        exact Control.serial_mem_of_mem_requests (inv_loop hrun) hrequest
      rw [about, List.filter_append, hnil, List.append_nil] at hx
      exact hx
    · have hst' := (hstatus a).symm.trans hst
      split at hst'
      · cases hst'
      · exact hst'
  · cases hsend

/-- **Reservations end**: an `/unreserve` follows. -/
theorem Agree.notifyEnd (h : s.Agree) {res : List String} (hres : ∀ a ∈ res, s.db.IsReserved a) :
    Agree (s.notifyEnd (s.db.endStaged res)) := by
  obtain ⟨hstatus, hreserved, hworker⟩ := endStaged_spec hres
  have hserials := endedRows_serials hres
  have hrow : ∀ a, a ∈ res ↔ ∃ row ∈ s.db.endedRows res, row.serial = a := fun a => by
    conv_lhs => rw [← hserials, List.mem_map]
  have hmessages : (s.notifyEnd (s.db.endStaged res)).messages =
      s.messages ++ (s.db.endedRows res).map .unreserve := rfl
  have hworker' : (s.notifyEnd (s.db.endStaged res)).db.workerOf = s.db.workerOf := hworker
  have hheld : ∀ {a}, s.Held a → Held (s.notifyEnd (s.db.endStaged res)) a := by
    rintro a (ha | ⟨m, hm, hu⟩)
    · by_cases hin : a ∈ res
      · obtain ⟨row, hrow', rfl⟩ := (hrow a).mp hin
        refine Or.inr ⟨.unreserve row, ?_, decide_eq_true rfl⟩
        exact List.mem_append_right _ (List.mem_map_of_mem hrow')
      · exact Or.inl ((hreserved a).mpr ⟨ha, hin⟩)
    · exact Or.inr ⟨m, List.mem_append_left _ hm, hu⟩
  refine
    { shape := h.shape
      addressed := fun row hrow' => ?_
      answered := fun a ha x hx => ?_
      client := fun a d hd f hf => (h.client a d hd f hf).imp_right hheld
      homeward := fun a d hd => (h.homeward a d hd).imp_left hheld
      announced := fun a d hd hst => h.announced a d hd ?_ }
  · rw [hworker']
    rcases List.mem_append.mp hrow' with hrow' | hrow'
    · exact h.addressed row hrow'
    · obtain ⟨row', hmem, heq⟩ := List.mem_map.mp hrow'
      obtain rfl := Message.unreserve.inj heq
      obtain ⟨w, hw, hip, hport⟩ := address_of_mem_endedRows hmem
      exact ⟨w, hw, by rw [hip, hport]⟩
  · rw [about, hmessages, List.filter_append, List.getLast?_append] at hx
    cases hnew : (((s.db.endedRows res).map (Message.unreserve (α := α))).filter
        fun m => decide (m.serial = a)).getLast? with
    | some y =>
      -- a message behind all the others gives the device back
      rw [hnew] at hx
      obtain rfl := Option.some.inj hx
      obtain ⟨hy, hya⟩ := List.mem_filter.mp (List.mem_of_getLast? hnew)
      obtain ⟨row, -, rfl⟩ := List.mem_map.mp hy
      exact hya
    | none =>
      rw [hnew] at hx
      refine h.answered a (fun hin => ha ?_) x hx
      refine (hreserved a).mpr ⟨hin, fun hmem => ?_⟩
      obtain ⟨row, hrow', rfl⟩ := (hrow a).mp hmem
      have hnil := List.getLast?_eq_none_iff.mp hnew
      exact List.filter_eq_nil_iff.mp hnil _ (List.mem_map_of_mem hrow') (decide_eq_true rfl)
  · have hst' := (hstatus a).symm.trans hst
    split at hst'
    · cases hst'
    · exact hst'

/-- **A device appears**, and is flashed first. -/
theorem Agree.addDevice (h : s.Agree) (hinv : s.Inv) {serial worker : String} {db : Database}
    (hdb : s.db.addDevice serial worker = some db) :
    Agree { s with db := db, devices := Function.update s.devices serial (some states.init) } := by
  obtain ⟨hnew, hstatus, hres, hworker⟩ := addDevice_spec hdb
  have hreserved : db.IsReserved = s.db.IsReserved :=
    funext fun b => propext (isReserved_congr hres b)
  have hheld : ∀ {b}, s.Held b →
      Held { s with db := db, devices := Function.update s.devices serial (some states.init) } b :=
    fun {b} hb => hb.imp_left fun hr => (isReserved_congr hres b).mpr hr
  refine
    { shape := fun b d hd => ?_
      addressed := fun row hrow => ?_
      answered := fun b hb => h.answered b (hreserved ▸ hb)
      client := fun b d hd f hf => ?_
      homeward := fun b d hd => ?_
      announced := fun b d hd hst => ?_ }
  · rcases eq_or_of_update hd with ⟨rfl, rfl⟩ | ⟨-, hd⟩
    · exact ⟨[], shape_start⟩
    · exact h.shape b d hd
  · have hne : row.serial ≠ serial := fun heq => by
      have hzero := (hinv.known serial hnew).2
      exact List.countP_eq_zero.mp hzero _ hrow (decide_eq_true heq)
    rw [hworker _ hne]
    exact h.addressed row hrow
  · rcases eq_or_of_update hd with ⟨rfl, rfl⟩ | ⟨-, hd⟩
    · cases List.mem_singleton.mp hf
    · exact (h.client b d hd f hf).imp_right hheld
  · rcases eq_or_of_update hd with ⟨rfl, rfl⟩ | ⟨-, hd⟩
    · exact Or.inr (Or.inl ⟨.flashDefault, List.mem_singleton_self _, Or.inl rfl⟩)
    · exact (h.homeward b d hd).imp_left hheld
  · rcases eq_or_of_update hd with ⟨rfl, rfl⟩ | ⟨hb, hd⟩
    · rw [hstatus, if_pos rfl] at hst
      cases hst
    · rw [hstatus, if_neg hb] at hst
      exact h.announced b d hd hst

/-! ### Every run in order -/

theorem agree_step {i : FleetInput α} (h : s.Agree) (hinv : s.Inv) (hord : s.InOrder i)
    (hstep : s.step i = some t) : t.Agree := by
  match i with
  | .addDevice serial worker =>
    rw [step] at hstep
    split at hstep
    · cases hstep
    · obtain ⟨db, hdb, rfl⟩ := Option.map_eq_some_iff.mp hstep
      exact h.addDevice hinv hdb
  | .reserve .. => exact h.reserve hstep
  | .endSome clientId serials =>
    obtain rfl := Option.some.inj hstep
    exact h.notifyEnd (staged_spec s.db fun r => r.clientName = clientId ∧ r.device ∈ serials).1
  | .endAll clientId =>
    obtain rfl := Option.some.inj hstep
    exact h.notifyEnd (staged_spec s.db fun r => r.clientName = clientId).1
  | .deliver k =>
    obtain ⟨m, hk, rfl⟩ := Option.map_eq_some_iff.mp hstep
    exact h.deliver hord hk
  | .lose k => exact absurd hord id
  | .device serial j =>
    obtain ⟨d, hd, hstep⟩ := Option.bind_eq_some_iff.mp hstep
    obtain ⟨⟨d', e⟩, hdev, rfl⟩ := Option.map_eq_some_iff.mp hstep
    exact h.stepDevice hinv hd hdev

theorem agree_start (workers : Table WorkerRow WorkerRow.workerName) :
    (start workers : Fleet α).Agree where
  shape := fun a d hd => by cases hd
  addressed := fun row hrow => absurd hrow List.not_mem_nil
  answered := fun a _ m hm => by cases hm
  client := fun a d hd => by cases hd
  homeward := fun a d hd => by cases hd
  announced := fun a d hd => by cases hd

/-- **A device that nobody holds is in the default cycle**, where the messages
about each device are handled one after another. In every state such a run
reaches, a device without a reservation, without a message in flight or a
handler waiting for its lock, and without a call of `Device.switch` under way,
has the default `FlashState`, `TestState`, `ReadyState` or `BrokenState` for its
current object; and where its status is `available`, that object is a
`ReadyState`. -/
theorem agreement {workers : Table WorkerRow WorkerRow.workerName} {is : List (FleetInput α)}
    (hrun : (machine α).run (start workers) is = some s)
    (hord : (machine α).Meets InOrder (start workers) is) {a : String} {d : Device StateFactory}
    (hd : s.devices a = some d) (hfree : ¬s.db.IsReserved a)
    (hsent : ∀ m ∈ s.messages, m.serial ≠ a) (hhandled : ∀ t ∈ d.threads, t.handles = false)
    (hquiet : Quiet d.stack) :
    ∃ f, s.stateOf a = some f ∧ Home f ∧ (s.db.status a = some .available → f = .ready) := by
  obtain ⟨hinv, h⟩ : s.Inv ∧ s.Agree :=
    Machine.invariant_of_meets (I := fun s => s.Inv ∧ s.Agree)
      (fun _ _ _ hI hc hstep => ⟨inv_step hI.1 hstep, agree_step hI.2 hI.1 hc hstep⟩)
      ⟨inv_start workers, agree_start workers⟩ hord hrun
  have hno : ¬s.Held a := by
    rintro (hres | ⟨m, hm, hu⟩)
    · exact hfree hres
    · exact hsent m hm (serial_of_unreserves hu)
  have hhome : AtHome d := by
    rcases (h.homeward a d hd).resolve_left hno with ⟨t, ht, rfl | rfl⟩ | hret | hhome
    · cases hhandled _ ht
    · cases hhandled _ ht
    · cases hret with
      | exiting hs => exact absurd trivial (hquiet .handleExit (by simp [hs]))
      | @building f hs => exact absurd trivial (hquiet (.stateFactory f) (by simp [hs]))
      | @initializing o cs hs => exact absurd trivial (hquiet (.install o) (by simp [hs]))
      | @installing o hs => exact absurd trivial (hquiet (.install o) (by simp [hs]))
    · exact hhome
  obtain ⟨o, hcur, f, hf, hff⟩ := hhome.current
  have hstate : s.stateOf a = some f := by
    rw [stateOf, hd, Option.bind_some, hcur, Option.bind_some, hf]
  refine ⟨f, hstate, hff, fun hst => ?_⟩
  cases h.announced a d hd hst with
  | ready hcur' ho =>
    obtain rfl := Option.some.inj (hcur.symm.trans hcur')
    exact Option.some.inj (hf.symm.trans ho)
  | @building p rest hs => exact absurd trivial (hquiet (.install p) (by simp [hs]))
  | @installing p rest hs => exact absurd trivial (hquiet (.install p) (by simp [hs]))
  | @exiting rest hs => exact absurd trivial (hquiet .handleExit (by simp [hs]))
  | @replacing rest hs => exact absurd trivial (hquiet (.stateFactory .broken) (by simp [hs]))
  | @breaking p rest hs => exact absurd trivial (hquiet (.install p) (by simp [hs]))

/-! ### Runs of one device -/

/-- Steps of device `A`. -/
def onDevice (l : List (DeviceStep Outside)) : List (FleetInput Unit) := l.map (.device "A")

/-- A client reserves device `A` as `pulsecount`. -/
def reserves : FleetInput Unit :=
  .reserve "client" 1 "pulsecount" () 0 [⟨"A", "10.0.0.1", 8081⟩] [.next, .read 0, .read 0, .read 0]

/-- The client's reservation ends. -/
def ends : FleetInput Unit := .endSome "client" ["A"]

/-- The `/reserve` arrives, and the device switches to the client's state. -/
def reserved : List (FleetInput Unit) :=
  deviceBoots ++ [reserves, .deliver 0] ++ onDevice (.thread 0 :: goesOn 11)

/-- The reservation ends, and the device is flashed again. -/
def returned : List (FleetInput Unit) :=
  reserved ++ [ends, .deliver 0] ++ onDevice ([.thread 0, .thread 0] ++ goesOn 6)

/-- The reservation ends before its `/reserve` arrives: the device is flashed
again, and then switches to the client's state. -/
def lateReserve : List (FleetInput Unit) :=
  deviceBoots ++ [reserves, ends, .deliver 1] ++ onDevice ([.thread 0, .thread 0] ++ goesOn 6) ++
    [.deliver 0] ++ onDevice (.thread 0 :: goesOn 11)

/-- What there is to see of device `A`. -/
structure View where
  status : Option DeviceState
  reserved : Bool
  messages : ℕ
  state : Option StateFactory
  stack : Option (List (Frame StateFactory))
  threads : Option ℕ
  deriving DecidableEq

/-- Looking at device `A`. -/
def view (s : Fleet Unit) : View where
  status := s.db.status "A"
  reserved := s.db.IsReserved "A"
  messages := s.messages.length
  state := s.stateOf "A"
  stack := (s.devices "A").map Device.stack
  threads := (s.devices "A").map fun d => d.threads.length

/-- A client's `FlashState`. -/
def pulseFlash : StateFactory := .flash .pulseFirmware .pulseCount none

theorem returned_run : ((machine Unit).run (start oneWorker) returned).map view =
    some ⟨some .flashingDefault, false, 0, some Worker.flashDefault, some [], some 0⟩ := by
  decide

/-- In order, the device comes home. -/
theorem returned_home :
    ∃ s, (machine Unit).run (start oneWorker) returned = some s ∧
      ∃ f, s.stateOf "A" = some f ∧ Home f ∧ (s.db.status "A" = some .available → f = .ready) := by
  obtain ⟨s, hs, heq⟩ := Option.map_eq_some_iff.mp returned_run
  obtain ⟨-, hfree, hsent, -, hstack, hthreads⟩ := View.mk.inj heq
  obtain ⟨d, hd, hnil⟩ := Option.map_eq_some_iff.mp hstack
  have hnone : d.threads = [] := by
    rw [hd, Option.map_some] at hthreads
    exact List.length_eq_zero_iff.mp (Option.some.inj hthreads)
  refine ⟨s, hs, agreement hs (by decide) hd (of_decide_eq_false hfree) ?_ ?_ ?_⟩
  · rw [List.length_eq_zero_iff.mp hsent]
    exact fun m hm => absurd hm List.not_mem_nil
  · rw [hnone]
    exact fun t ht => absurd ht List.not_mem_nil
  · rw [hnil]
    exact fun y hy => absurd hy List.not_mem_nil

theorem lateReserve_run : ((machine Unit).run (start oneWorker) lateReserve).map view =
    some ⟨some .flashingDefault, false, 0, some pulseFlash, some [], some 0⟩ := by
  decide

/-- The reservation has ended, and the handler of the `/unreserve` has not got
the lock yet. -/
theorem waiting_run :
    ((machine Unit).run (start oneWorker) (reserved ++ [ends, .deliver 0])).map view =
      some ⟨some .awaitFlashDefault, false, 0, some pulseFlash, some [], some 1⟩ := by
  decide

/-- The `ReadyState` has written its status, and is not installed yet. -/
theorem announcing_run :
    ((machine Unit).run (start oneWorker)
        (.addDevice "A" "w1" :: onDevice (boot.take 27))).map view =
      some ⟨some .available, false, 0, some .test,
        some [.code 2 [], .install 2, .code 1 [], .unlock 1], some 0⟩ := by
  decide

/-- **A device nobody holds need not be in the default cycle.** After a late
`/reserve` it is in a client's state, with every message delivered and handled;
it still is where the handler of its `/unreserve` waits for the lock; and its
status may be `available` while its `TestState` is about to give way. -/
theorem lateReserve_not_home :
    (∃ s d, (machine Unit).run (start oneWorker) lateReserve = some s ∧ ¬s.db.IsReserved "A" ∧
      s.messages = [] ∧ s.devices "A" = some d ∧ d.threads = [] ∧ d.stack = [] ∧
      s.stateOf "A" = some pulseFlash ∧ ¬Home pulseFlash) ∧
    (∃ s, (machine Unit).run (start oneWorker) (reserved ++ [ends, .deliver 0]) = some s ∧
      ¬s.db.IsReserved "A" ∧ s.messages = [] ∧ s.stateOf "A" = some pulseFlash) ∧
    ∃ s, (machine Unit).run (start oneWorker)
        (.addDevice "A" "w1" :: onDevice (boot.take 27)) = some s ∧
      ¬s.db.IsReserved "A" ∧ s.messages = [] ∧ s.db.status "A" = some .available ∧
        s.stateOf "A" = some .test := by
  refine ⟨?_, ?_, ?_⟩
  · obtain ⟨s, hs, heq⟩ := Option.map_eq_some_iff.mp lateReserve_run
    obtain ⟨-, hfree, hsent, hstate, hstack, hthreads⟩ := View.mk.inj heq
    obtain ⟨d, hd, hnil⟩ := Option.map_eq_some_iff.mp hstack
    refine ⟨s, d, hs, of_decide_eq_false hfree, List.length_eq_zero_iff.mp hsent, hd, ?_, hnil,
      hstate, by decide⟩
    rw [hd, Option.map_some] at hthreads
    exact List.length_eq_zero_iff.mp (Option.some.inj hthreads)
  · obtain ⟨s, hs, heq⟩ := Option.map_eq_some_iff.mp waiting_run
    obtain ⟨-, hfree, hsent, hstate, -⟩ := View.mk.inj heq
    exact ⟨s, hs, of_decide_eq_false hfree, List.length_eq_zero_iff.mp hsent, hstate⟩
  · obtain ⟨s, hs, heq⟩ := Option.map_eq_some_iff.mp announcing_run
    obtain ⟨hstatus, hfree, hsent, hstate, -⟩ := View.mk.inj heq
    exact ⟨s, hs, of_decide_eq_false hfree, List.length_eq_zero_iff.mp hsent, hstatus, hstate⟩

end Fleet

end UsbipIce
