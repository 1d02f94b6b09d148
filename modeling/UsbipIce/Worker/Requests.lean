import UsbipIce.Lib.LoopVariable

/-!
# The requests a worker passes on

`handle` of `worker/app.py` takes a request packet from a client's socket. Where
the packet's serial is a list, it loops over the list and starts, for each
serial, a thread that calls `manager.handleRequest(s, event, contents)`. The
thread is a closure over the loop variable `s` and reads it when it gets to run:
this is `Lib.loop` with one read a thread.

A thread that reads late asks the device of a later serial, and its own is
skipped. The calls come out right where every thread found its own serial, and, for
distinct serials, nowhere else. A list may repeat a serial; the calls then come out
right exactly when the threads that found a foreign serial found each other's
(`UsbipIce.Worker.handleRequests_perm_iff`).
-/

namespace UsbipIce.Worker

open Lib

/-! ### Packets -/

/-- A decoded JSON value: a list, or a value whose structure does not matter. -/
inductive Value (α : Type*) where
  | list (l : List α)
  | other (a : α)
  deriving DecidableEq, Repr

/-- What `json.loads` makes of the data. -/
inductive Data (α : Type*) where
  /-- It raises. -/
  | unparsable
  /-- A value that has no `get`. -/
  | noDict
  /-- A dictionary, with what `get` finds under the three keys. -/
  | packet (serial event contents : Option (Value α))

/-- A call of `DeviceManager.handleRequest`. -/
structure RequestCall (α : Type*) where
  serial : α
  event : Value α
  contents : Value α
  deriving DecidableEq, Repr

/-- What `handle` makes of some data. -/
inductive Handled (α : Type*) where
  /-- It logs, and returns. -/
  | ignored
  | raised
  /-- It calls `handleRequest` itself. -/
  | direct (c : RequestCall α)
  /-- It loops over the serials. -/
  | batch (serials : List α) (event contents : Value α)

variable {α : Type*}

/-- The truth value of a JSON value, given those of the values that are not
lists. -/
def Value.truthy (t : α → Bool) : Value α → Bool
  | .list l => !l.isEmpty
  | .other a => t a

/-- What counts of a key: the value found there, if it is true. -/
def present (t : α → Bool) (v : Option (Value α)) : Option (Value α) := v.filter (Value.truthy t)

/-- `handle`, given the client id found for the socket. -/
def handle (t : α → Bool) (clientId : Option String) (data : Data α) : Handled α :=
  match clientId, data with
  | none, _ => .ignored
  | some _, .unparsable => .ignored
  | some _, .noDict => .raised
  | some _, .packet serial event contents =>
    match present t serial, present t event, present t contents with
    | some (.list serials), some event, some contents => .batch serials event contents
    | some (.other serial), some event, some contents => .direct ⟨serial, event, contents⟩
    | _, _, _ => .ignored

/-- The serials `handle` loops over. -/
def Handled.serials : Handled α → List α
  | .batch serials _ _ => serials
  | .ignored | .raised | .direct _ => []

/-! ### The threads -/

/-- The loop of `handle` and its threads. -/
abbrev requestLoop (α : Type*) : Machine (LoopState α) LoopInput := loop α 1

/-- The calls made in a state of the loop: those of the threads that have read
the variable. -/
def handleRequests (event contents : Value α) (s : LoopState α) : List (RequestCall α) :=
  s.found.map fun serial => ⟨serial, event, contents⟩

/-- A list of serials, empty or not, is what `handle` loops over. -/
theorem serials_handle {t : α → Bool} {serials : List α} {event contents : Value α}
    (hevent : event.truthy t = true) (hcontents : contents.truthy t = true) (clientId : String) :
    (handle t (some clientId)
      (.packet (some (.list serials)) (some event) (some contents))).serials = serials := by
  have he : present t (some event) = some event := Option.filter_some_pos hevent
  have hc : present t (some contents) = some contents := Option.filter_some_pos hcontents
  cases serials with
  | nil => rfl
  | cons s serials =>
    have hs : present t (some (.list (s :: serials))) = some (.list (s :: serials)) :=
      Option.filter_some_pos rfl
    simp only [handle, he, hc, hs, Handled.serials]

/-- Calls that differ only in the serial are as many as the serials. -/
@[simp] theorem calls_perm_iff {event contents : Value α} {l l' : List α} :
    (l.map fun serial => (⟨serial, event, contents⟩ : RequestCall α)).Perm
      (l'.map fun serial => ⟨serial, event, contents⟩) ↔ l.Perm l' := by
  constructor
  · intro h
    have hserial := h.map RequestCall.serial
    simpa only [List.map_map, Function.comp_def, List.map_id'] using hserial
  · exact fun h => h.map _

variable [DecidableEq α]

/-- **The exact condition for a batch request.** For every packet with a list of
serials, of any length and with or without repetitions, and every complete
schedule of the loop and its threads: `handleRequest` is called once for each
occurrence of a serial, with it and the packet's event and contents, if every
thread finds its own serial in the variable at the read it makes; where the serials
are distinct, only if; and where they are not, exactly when the threads that found
a foreign serial found, together, their own. -/
theorem handleRequests_perm_iff {t : α → Bool} {serials : List α} {event contents : Value α}
    (hevent : event.truthy t = true) (hcontents : contents.truthy t = true) (clientId : String)
    {is : List LoopInput} {u : LoopState α}
    (hrun : (requestLoop α).run (.start (handle t (some clientId)
      (.packet (some (.list serials)) (some event) (some contents))).serials) is = some u)
    (hdone : u.Done 1) :
    ((handleRequests event contents u).Perm (serials.map fun s => ⟨s, event, contents⟩) ↔
        ((strays serials u.found).map Prod.snd).Perm ((strays serials u.found).map Prod.fst)) ∧
      ((requestLoop α).Meets (ReadsOwn (fun _ => Eq) serials) (.start serials) is →
        (handleRequests event contents u).Perm (serials.map fun s => ⟨s, event, contents⟩)) ∧
      (serials.Nodup →
        ((handleRequests event contents u).Perm (serials.map fun s => ⟨s, event, contents⟩) ↔
          (requestLoop α).Meets (ReadsOwn (fun _ => Eq) serials) (.start serials) is)) := by
  rw [serials_handle hevent hcontents] at hrun
  rw [handleRequests, calls_perm_iff]
  refine ⟨found_perm_iff hrun hdone, fun hmeets => ?_,
    fun hserials => found_perm_iff_meets hserials hrun hdone⟩
  rw [found_eq_of_meets hrun hdone hmeets]

/-! ### A packet for two devices -/

/-- A packet's strings are true unless they are empty. -/
def nonempty (s : String) : Bool := decide (s ≠ "")

/-- The event of the packet. -/
def evaluateEvent : Value String := .other "evaluate"

/-- The contents of the packet. -/
def someContents : Value String := .other "files"

/-- The schedule on which each thread reads before the loop goes on. -/
def inTurn : List LoopInput := [.next, .read 0, .next, .read 1]

/-- A schedule on which the loop has rebound `s` before the first thread reads
it. -/
def slowFirst : List LoopInput := [.next, .next, .read 0, .read 1]

/-- The packet. -/
def twoDevices : Data String :=
  .packet (some (.list ["A", "B"])) (some evaluateEvent) (some someContents)

/-- Read in turn, the two devices are asked once each. -/
theorem handleRequests_inTurn :
    ∃ u, (requestLoop String).run (.start (handle nonempty (some "client") twoDevices).serials)
        inTurn = some u ∧ u.Done 1 ∧
      (handleRequests evaluateEvent someContents u).Perm
        (["A", "B"].map fun s => ⟨s, evaluateEvent, someContents⟩) := by
  have hrun : (requestLoop String).run
      (.start (handle nonempty (some "client") twoDevices).serials) inTurn =
        some ⟨[], some "B", [["A"], ["B"]]⟩ := rfl
  refine ⟨_, hrun, ⟨rfl, by decide⟩, ?_⟩
  exact (handleRequests_perm_iff (t := nonempty) (by decide) (by decide) "client" hrun
    ⟨rfl, by decide⟩).1.mpr (by decide)

/-- **A slow thread asks the next device**: on that schedule `B` is asked twice
and `A` never. -/
theorem handleRequests_slowFirst :
    ∃ u, (requestLoop String).run (.start (handle nonempty (some "client") twoDevices).serials)
        slowFirst = some u ∧ u.Done 1 ∧
      ¬(handleRequests evaluateEvent someContents u).Perm
        (["A", "B"].map fun s => ⟨s, evaluateEvent, someContents⟩) :=
  ⟨_, rfl, ⟨rfl, by decide⟩, by decide⟩

end UsbipIce.Worker
