import UsbipIce.Lib.LoopVariable
import UsbipIce.Control.Database

/-!
# The requests `Control.reserve` sends

Once `makeReservations` has returned its rows, `Control.reserve` loops over
them and starts, for each, a thread running `send_reserve`. That function is a
closure over the loop variable `row`: it reads `row["ip"]`, `row["serverport"]`
and `row["serial"]` when it gets to run, from whatever `row` is bound to by
then. This is `Lib.loop` with three reads a thread.

The batch comes out right – one `/reserve` per row, at that row's worker, with
that row's serial – exactly when no read finds a foreign value
(`UsbipIce.Control.requests_perm_iff`).
-/

namespace UsbipIce

open Lib Database

namespace Control

variable {α : Type*}

/-- A `GET http://ip:port/reserve` with its JSON body. -/
structure ReserveRequest (α : Type*) where
  ip : String
  port : ℤ
  serial : String
  kind : String
  args : α
  deriving DecidableEq

/-- The request a row asks for. -/
def reserveRequest (kind : String) (args : α) (row : ReservedRow) : ReserveRequest α :=
  ⟨row.ip, row.serverport, row.serial, kind, args⟩

/-- `send_reserve`, given what its reads of `row` found: the first supplies the
ip, the second the port, the third the serial. -/
def sendReserve (kind : String) (args : α) : List ReservedRow → Option (ReserveRequest α)
  | [row₁, row₂, row₃] => some ⟨row₁.ip, row₂.serverport, row₃.serial, kind, args⟩
  | _ => none

/-- What the `j`-th read of `send_reserve` looks at is the same in two rows. -/
def SameRead : ℕ → ReservedRow → ReservedRow → Prop
  | 0, r, r' => r.ip = r'.ip
  | 1, r, r' => r.serverport = r'.serverport
  | _, r, r' => r.serial = r'.serial

/-- The loop of `Control.reserve` and its threads. -/
abbrev reserveLoop : Machine (LoopState ReservedRow) LoopInput := loop ReservedRow 3

/-- The requests sent in a state of the loop. -/
def requests (kind : String) (args : α) (s : LoopState ReservedRow) : List (ReserveRequest α) :=
  s.threads.filterMap (sendReserve kind args)

variable {rows : List ReservedRow} {t : LoopState ReservedRow}

/-- What a thread that has made its three reads has seen. -/
theorem seen_of_done (hdone : t.Done 3) {i : ℕ} {seen : List ReservedRow}
    (hi : t.threads[i]? = some seen) : ∃ row₁ row₂ row₃, seen = [row₁, row₂, row₃] := by
  have hlen := hdone.2 seen (List.mem_of_getElem? hi)
  match seen, hlen with
  | [row₁, row₂, row₃], _ => exact ⟨row₁, row₂, row₃, rfl⟩

/-- A request carries the serial of one of the rows. -/
theorem serial_mem_of_mem_requests {kind : String} {args : α} (hinv : LoopState.Inv rows t)
    {request : ReserveRequest α} (h : request ∈ requests kind args t) :
    request.serial ∈ rows.map ReservedRow.serial := by
  obtain ⟨seen, hseen, hsend⟩ := List.mem_filterMap.mp h
  obtain ⟨i, hi⟩ := List.mem_iff_getElem?.mp hseen
  match seen, hsend with
  | [row₁, row₂, row₃], hsend =>
    obtain rfl := Option.some.inj hsend
    exact List.mem_map_of_mem (List.mem_of_mem_drop (hinv.seen i _ hi row₃ (by simp)))

/-- When the batch is over, thread by thread the requests are those of the
states of `sendReserve`. -/
theorem map_sendReserve (kind : String) (args : α) (hdone : t.Done 3) :
    t.threads.map (sendReserve kind args) = (requests kind args t).map some := by
  have hall : ∀ l : List (List ReservedRow), (∀ seen ∈ l, seen.length = 3) →
      l.map (sendReserve kind args) = (l.filterMap (sendReserve kind args)).map some := by
    intro l
    induction l with
    | nil => intro _; rfl
    | cons seen l ih =>
      intro h
      have hlen := h seen List.mem_cons_self
      match seen, hlen with
      | [row₁, row₂, row₃], _ =>
        rw [List.map_cons, ih fun x hx => h x (List.mem_cons_of_mem _ hx)]
        rfl
  exact hall t.threads hdone.2

theorem requests_getElem? (kind : String) (args : α) (hdone : t.Done 3) {i : ℕ}
    {seen : List ReservedRow} (hi : t.threads[i]? = some seen) :
    (requests kind args t)[i]? = sendReserve kind args seen := by
  have h := congrArg (fun l => l[i]?) (map_sendReserve kind args hdone)
  simp only [List.getElem?_map, hi, Option.map_some] at h
  cases hreq : (requests kind args t)[i]? with
  | none => rw [hreq] at h; cases h
  | some r => rw [hreq] at h; exact (Option.some.inj h).symm

theorem requests_length (kind : String) (args : α) (hdone : t.Done 3) :
    (requests kind args t).length = t.threads.length := by
  have h := congrArg List.length (map_sendReserve kind args hdone)
  simpa using h.symm

/-- **Reads of one's own row give one's own request.** -/
theorem requests_eq_of_seenOwn (kind : String) (args : α) (hinv : LoopState.Inv rows t)
    (hdone : t.Done 3) (hown : SeenOwn SameRead rows t) :
    requests kind args t = rows.map (reserveRequest kind args) := by
  have hlen : t.threads.length = rows.length := hinv.length_eq hdone
  refine List.ext_getElem? fun i => ?_
  rcases Nat.lt_or_ge i rows.length with hlt | hge
  · have hseen : t.threads[i]? = some t.threads[i] := List.getElem?_eq_getElem (hlen ▸ hlt)
    have hrow : rows[i]? = some rows[i] := List.getElem?_eq_getElem hlt
    obtain ⟨row₁, row₂, row₃, hrows⟩ := seen_of_done hdone hseen
    rw [hrows] at hseen
    have h₁ : row₁.ip = rows[i].ip := hown i rows[i] _ hrow hseen 0 row₁ rfl
    have h₂ : row₂.serverport = rows[i].serverport := hown i rows[i] _ hrow hseen 1 row₂ rfl
    have h₃ : row₃.serial = rows[i].serial := hown i rows[i] _ hrow hseen 2 row₃ rfl
    rw [requests_getElem? kind args hdone hseen, List.getElem?_map, hrow, sendReserve, h₁, h₂, h₃]
    rfl
  · rw [List.getElem?_eq_none (by rw [requests_length kind args hdone]; omega),
      List.getElem?_eq_none (by rw [List.length_map]; omega)]

/-- **One request per row forces every thread onto its own row**: the serials
are distinct, so the batch is served in place. -/
theorem seenOwn_of_requests_perm {kind : String} {args : α}
    (hserial : (rows.map ReservedRow.serial).Nodup) (hinv : LoopState.Inv rows t)
    (hdone : t.Done 3)
    (hperm : (requests kind args t).Perm (rows.map (reserveRequest kind args))) :
    SeenOwn SameRead rows t := by
  have hkeys : (requests kind args t).map ReserveRequest.serial = rows.map ReservedRow.serial := by
    refine eq_of_perm_of_mem_drop hserial ?_ fun i k hk => ?_
    · have h := hperm.map ReserveRequest.serial
      rwa [List.map_map] at h
    · rw [List.getElem?_map, Option.map_eq_some_iff] at hk
      obtain ⟨req, hreq, rfl⟩ := hk
      have hlt : i < t.threads.length := by
        rw [← requests_length kind args hdone]
        exact (List.getElem?_eq_some_iff.mp hreq).1
      have hseen : t.threads[i]? = some t.threads[i] := List.getElem?_eq_getElem hlt
      obtain ⟨row₁, row₂, row₃, hrows⟩ := seen_of_done hdone hseen
      rw [hrows] at hseen
      rw [requests_getElem? kind args hdone hseen] at hreq
      obtain rfl := Option.some.inj hreq
      rw [← List.map_drop]
      exact List.mem_map_of_mem (hinv.seen i _ hseen row₃ (by simp))
  intro i own seen hown hseen j r hr
  obtain ⟨row₁, row₂, row₃, rfl⟩ := seen_of_done hdone hseen
  have hreq : (requests kind args t)[i]? =
      some ⟨row₁.ip, row₂.serverport, row₃.serial, kind, args⟩ :=
    requests_getElem? kind args hdone hseen
  have hser : row₃.serial = own.serial := by
    have h := congrArg (fun l => l[i]?) hkeys
    simpa [hreq, hown] using h
  -- the request with this serial in the expected batch is the row's own
  obtain ⟨own', hmem, heq⟩ := List.mem_map.mp (hperm.mem_iff.mp (List.mem_of_getElem? hreq))
  have hser' : own'.serial = row₃.serial := congrArg ReserveRequest.serial heq
  obtain rfl : own' = own := List.inj_on_of_nodup_map hserial hmem (List.mem_of_getElem? hown)
    (hser'.trans hser)
  match j, hr with
  | 0, hr =>
    obtain rfl : row₁ = r := Option.some.inj hr
    exact (congrArg ReserveRequest.ip heq).symm
  | 1, hr =>
    obtain rfl : row₂ = r := Option.some.inj hr
    exact (congrArg ReserveRequest.port heq).symm
  | 2, hr =>
    obtain rfl : row₃ = r := Option.some.inj hr
    exact hser
  | j + 3, hr => simp at hr

/-- The rows `makeReservations` returns have pairwise distinct serials. -/
theorem nodup_serials_of_makeReservations {db db' : Database} {amount now : ℤ}
    {clientName : String} {res : List ReservedRow}
    (h : db.makeReservations amount clientName now res = some (db', rows)) :
    (rows.map ReservedRow.serial).Nodup := by
  obtain ⟨rfl, hlim, -⟩ := makeReservations_spec h
  exact hlim.nodup_map db.nodup_available_serials

/-- **The exact condition for a batch of `/reserve` requests.** For the rows a
reservation returned and every complete schedule of the loop and its threads,
the requests sent are one per row, each at that row's worker and with that
row's serial, exactly when every read a thread makes of the loop variable finds
there the value of the thread's own row. -/
theorem requests_perm_iff {db db' : Database} {amount now : ℤ} {clientName : String}
    {res rows : List ReservedRow}
    (hrows : db.makeReservations amount clientName now res = some (db', rows))
    (kind : String) (args : α) {is : List LoopInput} {t : LoopState ReservedRow}
    (hrun : reserveLoop.run (.start rows) is = some t) (hdone : t.Done 3) :
    (requests kind args t).Perm (rows.map (reserveRequest kind args)) ↔
      reserveLoop.Meets (ReadsOwn SameRead rows) (.start rows) is := by
  have hinv : LoopState.Inv rows t := inv_loop hrun
  rw [← own_iff_meets hrun]
  constructor
  · intro hperm
    exact seenOwn_of_requests_perm (nodup_serials_of_makeReservations hrows) hinv hdone hperm
  · intro hown
    rw [requests_eq_of_seenOwn kind args hinv hdone hown]

/-! ### Two workers with one free device each -/

/-- Two workers, each with one available device. -/
def twoWorkers : Database where
  worker := ⟨[⟨"w1", "10.0.0.1", 8081, 0⟩, ⟨"w2", "10.0.0.2", 8081, 0⟩], by decide⟩
  device := ⟨[⟨"A", "w1", .available⟩, ⟨"B", "w2", .available⟩], by decide⟩
  reservations := ∅
  deviceWorker := by
    have h : ∀ d ∈ [(⟨"A", "w1", .available⟩ : DeviceRow), ⟨"B", "w2", .available⟩],
        d.worker ∈ ["w1", "w2"] := by decide
    exact h
  reservationsDevice := fun r hr => absurd hr (Table.not_mem_empty r)

/-- The rows a reservation of both devices returns. -/
def bothRows : List ReservedRow := [⟨"A", "10.0.0.1", 8081⟩, ⟨"B", "10.0.0.2", 8081⟩]

/-- A schedule on which the first thread is slow: the loop has bound `row` to
the second row before the thread reads it. -/
def slowFirst : List LoopInput :=
  [.next, .next, .read 0, .read 0, .read 0, .read 1, .read 1, .read 1]

/-- The schedule on which each thread reads before the loop goes on. -/
def inTurn : List LoopInput :=
  [.next, .read 0, .read 0, .read 0, .next, .read 1, .read 1, .read 1]

theorem twoWorkers_makeReservations :
    ∃ db', twoWorkers.makeReservations 2 "client" 0 bothRows = some (db', bothRows) := by
  obtain ⟨⟨db', rows⟩, hdb⟩ : ∃ x, twoWorkers.makeReservations 2 "client" 0 bothRows = some x :=
    Option.isSome_iff_exists.mp (by decide)
  obtain ⟨rfl, -⟩ := makeReservations_spec hdb
  exact ⟨db', hdb⟩

/-- **A slow thread asks the next row's worker**: on that schedule device `B`
is asked twice and device `A` never. -/
theorem requests_slowFirst :
    ∃ db' t, twoWorkers.makeReservations 2 "client" 0 bothRows = some (db', bothRows) ∧
      reserveLoop.run (.start bothRows) slowFirst = some t ∧ t.Done 3 ∧
      ¬(requests "pulsecount" () t).Perm (bothRows.map (reserveRequest "pulsecount" ())) := by
  obtain ⟨db', hdb⟩ := twoWorkers_makeReservations
  exact ⟨db', _, hdb, rfl, ⟨rfl, by decide⟩, by decide⟩

/-- The condition can be met: read in turn, the two rows are served once
each. -/
theorem requests_inTurn :
    ∃ t, reserveLoop.run (.start bothRows) inTurn = some t ∧
      (requests "pulsecount" () t).Perm (bothRows.map (reserveRequest "pulsecount" ())) ∧
      reserveLoop.Meets (ReadsOwn SameRead bothRows) (.start bothRows) inTurn := by
  obtain ⟨db', hdb⟩ := twoWorkers_makeReservations
  refine ⟨_, rfl, by decide, ?_⟩
  exact (requests_perm_iff hdb "pulsecount" () rfl ⟨rfl, by decide⟩).mp (by decide)

end Control

end UsbipIce
