import UsbipIce.Client.Connections

/-!
# Connecting to workers

`EventServer` keeps its sockets by url. `connectWorker` connects where the url is no
key yet, and stores what the attempt returned: a socket, or the `False` of a
failed attempt. `disconnectWorker` goes by the truth value of what is stored.

So a failed attempt is final. It stays in the map, `connectWorker` takes it for a
connection, and `disconnectWorker` takes it for nothing. The calls do what is
asked of them exactly where none is made for a url after an attempt for it has
failed (`UsbipIce.Client.lawful_iff`).
-/

namespace UsbipIce

open Lib

/-- A call for a url; `attempt` is the outcome of the connection attempt, if one is
made. -/
inductive SocketCall where
  | connectWorker (url : String) (attempt : Bool)
  | disconnectWorker (url : String)
  deriving DecidableEq, Repr

/-- The url of a call. -/
def SocketCall.url : SocketCall → String
  | .connectWorker url _ | .disconnectWorker url => url

namespace Client

/-- What a call does to the sockets. -/
def call (c : Client) : SocketCall → Client
  | .connectWorker url attempt => c.connectWorker url attempt
  | .disconnectWorker url => c.disconnectWorker url

/-- The connection attempt a call makes, with its outcome. -/
def attemptOf (c : Client) : SocketCall → Option (String × Bool)
  | .connectWorker url attempt => if url ∈ c.workerSockets.keys then none else some (url, attempt)
  | .disconnectWorker _ => none

/-- The client behind some calls. -/
def after (calls : List SocketCall) : Client := calls.foldl call start

/-- The attempts made by some calls. -/
def attempts : Client → List SocketCall → List (String × Bool)
  | _, [] => []
  | c, x :: calls => (c.attemptOf x).toList ++ attempts (c.call x) calls

/-- **What is asked of a call**: without a live socket for its url `connectWorker`
makes an attempt, and behind `disconnectWorker` there is no entry for its url. -/
def Lawful (c : Client) : SocketCall → Prop
  | .connectWorker url attempt =>
    (url, true) ∉ c.workerSockets → c.attemptOf (.connectWorker url attempt) = some (url, attempt)
  | .disconnectWorker url => url ∉ (c.disconnectWorker url).workerSockets.keys

/-! ### Failed attempts -/

theorem mem_keys_workerSockets {c : Client} {url : String} :
    url ∈ c.workerSockets.keys ↔
      (url, true) ∈ c.workerSockets ∨ (url, false) ∈ c.workerSockets := by
  constructor
  · intro h
    obtain ⟨⟨u, live⟩, hp, rfl⟩ := Table.mem_keys.mp h
    cases live with
    | true => exact Or.inl hp
    | false => exact Or.inr hp
  · rintro (h | h)
    · exact Table.key_mem_keys h
    · exact Table.key_mem_keys h

/-- A socket that is live is not a failed attempt. -/
theorem not_failed_of_live {c : Client} {url : String} (h : (url, true) ∈ c.workerSockets) :
    (url, false) ∉ c.workerSockets := fun hfailed => by
  cases Table.eq_of_key_eq h hfailed rfl

/-- A call is lawful exactly where no failed attempt is stored for its url. -/
theorem lawful_iff_not_failed (c : Client) (x : SocketCall) :
    c.Lawful x ↔ (x.url, false) ∉ c.workerSockets := by
  cases x with
  | connectWorker url attempt =>
    have hattempt : c.attemptOf (.connectWorker url attempt) = some (url, attempt) ↔
        url ∉ c.workerSockets.keys := by
      rw [attemptOf]
      split <;> simp_all
    rw [Lawful, hattempt, mem_keys_workerSockets, not_or]
    constructor
    · intro h hfailed
      exact (h fun hlive => not_failed_of_live hlive hfailed).2 hfailed
    · exact fun h hlive => ⟨hlive, h⟩
  | disconnectWorker url =>
    rw [Lawful, disconnectWorker]
    cases hfind : c.workerSockets.find? url with
    | none =>
      have hkeys := Table.find?_eq_none.mp hfind
      exact iff_of_true hkeys fun hfailed => hkeys (Table.key_mem_keys hfailed)
    | some p =>
      obtain ⟨u, live⟩ := p
      obtain ⟨hmem, rfl⟩ := Table.find?_eq_some.mp hfind
      cases live with
      | true =>
        refine iff_of_true ?_ (not_failed_of_live hmem)
        exact fun hkeys => ((Table.mem_keys_delete fun _ => decide_eq_true_iff).mp hkeys).2 rfl
      | false => exact iff_of_false (fun h => h (Table.key_mem_keys hmem)) fun h => h hmem

/-- **A failed attempt stays**: the failed entries change by failed attempts only. -/
@[simp] theorem failed_call (c : Client) (x : SocketCall) (url : String) :
    (url, false) ∈ (c.call x).workerSockets ↔
      (url, false) ∈ c.workerSockets ∨ (url, false) ∈ c.attemptOf x := by
  cases x with
  | connectWorker u attempt =>
    rw [call, connectWorker, attemptOf]
    split
    · exact (or_iff_left (Option.not_mem_none _)).symm
    · rename_i hkeys
      rw [Table.mem_put, Option.mem_some_iff, eq_comm, or_comm]
      refine or_congr_left (and_iff_left_of_imp fun hmem heq => hkeys ?_)
      obtain rfl : url = u := heq
      exact Table.key_mem_keys hmem
  | disconnectWorker u =>
    rw [call, disconnectWorker, attemptOf]
    refine Iff.trans ?_ (or_iff_left (Option.not_mem_none _)).symm
    cases hfind : c.workerSockets.find? u with
    | none => exact Iff.rfl
    | some p =>
      obtain ⟨u', live⟩ := p
      cases live with
      | false => exact Iff.rfl
      | true =>
        obtain ⟨hmem, rfl⟩ := Table.find?_eq_some.mp hfind
        refine Table.mem_delete.trans (and_iff_left_of_imp fun hfailed => ?_)
        refine decide_eq_false fun heq => ?_
        obtain rfl : url = u' := heq
        exact not_failed_of_live hmem hfailed

/-- **What has failed is what is stored as failed.** -/
@[simp] theorem failed_foldl_iff (c : Client) (calls : List SocketCall) (url : String) :
    (url, false) ∈ (calls.foldl call c).workerSockets ↔
      (url, false) ∈ c.workerSockets ∨ (url, false) ∈ attempts c calls := by
  induction calls generalizing c with
  | nil => exact (or_iff_left List.not_mem_nil).symm
  | cons x calls ih =>
    rw [List.foldl_cons, ih, failed_call, attempts, List.mem_append, Option.mem_toList,
      ← Option.mem_def, or_assoc]

@[simp] theorem failed_after_iff (calls : List SocketCall) (url : String) :
    (url, false) ∈ (after calls).workerSockets ↔ (url, false) ∈ attempts start calls := by
  rw [after, failed_foldl_iff]
  exact or_iff_right (Table.not_mem_empty _)

/-- **When connecting and disconnecting is lawful.** For every sequence of calls,
with any outcomes of the attempts: every call does what is asked of it if and
only if none is made for a url after an attempt for it has failed. -/
theorem lawful_iff (calls : List SocketCall) :
    (∀ earlier x, earlier ++ [x] <+: calls → (after earlier).Lawful x) ↔
      ∀ earlier x, earlier ++ [x] <+: calls → (x.url, false) ∉ attempts start earlier := by
  refine forall_congr' fun earlier => forall_congr' fun x => imp_congr_right fun _ => ?_
  simp [lawful_iff_not_failed]

/-- An attempt fails, and the worker comes back. -/
def retried : List SocketCall :=
  [.connectWorker "http://10.0.0.4:8081" false, .connectWorker "http://10.0.0.4:8081" true]

/-- **The second call does not connect.** -/
theorem retried_unlawful :
    ¬∀ earlier x, earlier ++ [x] <+: retried → (after earlier).Lawful x := by
  intro h
  have hlawful := h [.connectWorker "http://10.0.0.4:8081" false]
    (.connectWorker "http://10.0.0.4:8081" true) List.prefix_rfl
  exact absurd (hlawful (by decide)) (by decide)

end Client

end UsbipIce
