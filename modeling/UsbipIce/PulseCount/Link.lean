import UsbipIce.PulseCount.Files
import UsbipIce.PulseCount.Firmware

/-!
# Host and firmware over the serial link

`PulseCountState` and the firmware, joined by a link that loses nothing and keeps
the order: the bytes the run thread writes are read by the firmware, the messages
of the firmware are read, each as a whole, by the reader.

The bytes carry no framing, and this is the trouble. The firmware takes the
first `bitstreamSizeLengthBytes` bytes it finds as one bitstream, and drops what
it has when the watchdog expires; the host goes on writing meanwhile and starts
the upload anew when it reads of the timeout. Whatever is left of an upload when
the firmware answers becomes the beginning of the next.

So the count stored for a bitstream is of that bitstream **as long as the
firmware answers only when nothing is left of the upload it answers**
(`UsbipIce.PulseCount.System.Framed`): then the bytes received and not read yet
are always those the run thread has written of the current upload
(`UsbipIce.PulseCount.System.Framing`), and the buffer is flashed when they are
all of them.
-/

namespace UsbipIce.PulseCount

open Lib

/-! ### The link -/

/-- A message on its way, with the firmware that wrote it as it was before the
iteration. -/
structure Written where
  message : Message
  writer : Firmware

/-- A count, with the message it was found in. -/
structure Count where
  /-- What is stored: the digits found. -/
  digits : List Char
  written : Written

/-- The signals a message is read as. -/
def Written.signals (w : Written) : List (Signal Count) :=
  (PulseCount.signals w.message.text).map (Signal.map fun digits => ⟨digits, w⟩)

/-- The bytes a step writes to the port. -/
def Host.emits {ν δ : Type*} (s : Host ν) : HostInput δ → List UInt8
  | .run =>
    match s.run with
    | .upload _ data i => (data.drop i).take chunkSize
    | _ => []
  | .request .. | .queue _ | .receive _ | .read | .handleExit => []

/-- The thread has chunks left to write. -/
def Run.uploading {ν : Type*} : Run ν → Bool
  | .upload .. => true
  | _ => false

/-- A `PulseCountState`, its device, and what is on its way between them. -/
structure System where
  host : Host Count
  firmware : Firmware
  /-- The bytes written by the host and not read by the firmware, the oldest
  first. -/
  rx : List UInt8
  /-- The messages not read by the host, the oldest first. -/
  messages : List Written

/-- What a system is driven by. -/
inductive SystemInput where
  | request (paths : List ℕ) (files : Files)
  | queue (k : ℕ)
  | run
  | read
  | handleExit
  /-- The reader reads a message. -/
  | deliver
  /-- The firmware goes through an iteration. -/
  | firmware (e : Environment)

namespace System

/-- A new `PulseCountState`, and a device after a reset. -/
def start : System where
  host := .start
  firmware := .boot
  rx := []
  messages := []

/-- The host takes a step. -/
def stepHost (s : System) (i : HostInput Written) (messages : List Written) : Option System :=
  (s.host.step Written.signals i).map fun host =>
    { s with
      host := host
      rx := s.rx ++ s.host.emits i
      messages := messages }

/-- The firmware goes through an iteration; the port stays connected. -/
def stepFirmware (s : System) (e : Environment) : System :=
  { s with
    firmware := (s.firmware.iterate e s.rx).firmware
    rx := (s.firmware.iterate e s.rx).rx
    messages := s.messages ++ (s.firmware.iterate e s.rx).messages.map fun m => ⟨m, s.firmware⟩ }

/-- One step. -/
def step (s : System) : SystemInput → Option System
  | .request paths files => s.stepHost (.request paths files) s.messages
  | .queue k => s.stepHost (.queue k) s.messages
  | .run => s.stepHost .run s.messages
  | .read => s.stepHost .read s.messages
  | .handleExit => s.stepHost .handleExit s.messages
  | .deliver =>
    match s.messages with
    | w :: messages => s.stepHost (.receive w) messages
    | [] => none
  | .firmware e => if e.connected then some (s.stepFirmware e) else none

/-- The system as a machine. -/
def machine : Machine System SystemInput := ⟨step⟩

/-! ### The condition -/

/-- The run thread has chunks left to write. -/
def uploading (s : System) : Bool := s.host.run.uploading

/-- **The firmware answers only when nothing is left of the upload**: where the
watchdog expires, or the count is taken, every byte of the current upload is
written and read. -/
def Framed (s : System) : SystemInput → Prop
  | .firmware e => s.firmware.answers e = true → s.rx = [] ∧ s.uploading = false
  | .request .. | .queue _ | .run | .read | .handleExit | .deliver => True

/-! ### What is on its way -/

/-- The bytes received of the transfer under way, and those not read yet. -/
def stream (s : System) : List UInt8 := s.firmware.received ++ s.rx

/-- The answers on their way to the run thread, the oldest first. -/
def inFlight (s : System) : List (Answer Count) :=
  s.host.reader.held ++ s.messages.flatMap fun w => answers w.signals

end System

/-- The count was taken of these bytes: it was found in a message that a
`FLASH_FPGA` step wrote, with these bytes in the buffer. -/
structure Count.FlashedFrom (v : Count) (bytes : List UInt8) : Prop where
  state : v.written.writer.currentState = .flashFpga
  bitstream : v.written.writer.bitstream = bytes
  message : ∃ times n, v.written.message = .pulses times n
  digits : searchPulses v.written.message.text = some v.digits

/-- An answer to the upload of these bytes. -/
def Answers (bytes : List UInt8) (a : Answer Count) : Prop :=
  ∀ v, a = .pulses v → v.FlashedFrom bytes

namespace System

/-- **Framing**: what is on its way belongs to the upload the run thread is at.
While it uploads, what the firmware has received or will read is what is
written; while it waits, either this is the whole upload, or the firmware is
through with it and the answer is on its way. -/
def Framing (run : Run Count) (last : Option (Bitstream × List UInt8)) (wire stream : List UInt8)
    (inFlight : List (Answer Count)) : Prop :=
  match run with
  | .upload .. => stream = wire ∧ inFlight = []
  | .waitUntilPulse b => ∃ data, last = some (b, data) ∧
    ((stream = data ∧ inFlight = []) ∨
      (stream = [] ∧ inFlight.length ≤ 1 ∧ ∀ a ∈ inFlight, Answers data a))
  | .judge b result => ∃ data, last = some (b, data) ∧ stream = [] ∧ inFlight = [] ∧
    ∀ a, result = some a → Answers data a
  | _ => stream = [] ∧ inFlight = []

/-- The invariant of a system whose firmware answers in time. -/
structure Inv (s : System) : Prop where
  filed : s.host.Filed
  carried : s.host.Carried
  exiting : s.host.reader.exiting = true → s.host.run = .ended
  firmware : s.firmware.Ok
  busy : s.firmware.busy = true → s.stream ≠ []
  framing : Framing s.host.run s.host.history.uploads.getLast? s.host.wire s.stream s.inFlight
  stored : ∀ b v, (b, some v) ∈ s.host.history.stored →
    ∃ data, s.host.Submitted b data ∧ v.FlashedFrom data

theorem inv_start : start.Inv where
  filed := Host.filed_start
  carried := Host.carried_start
  exiting := nofun
  firmware := Firmware.ok_boot
  busy := nofun
  framing := ⟨rfl, rfl⟩
  stored := fun _ _ h => absurd h List.not_mem_nil

theorem Framing.length_le {run : Run Count} {last : Option (Bitstream × List UInt8)}
    {wire stream : List UInt8} {inFlight : List (Answer Count)}
    (h : Framing run last wire stream inFlight) : inFlight.length ≤ 1 := by
  rw [Framing.eq_def] at h
  split at h
  · rw [h.2]
    exact Nat.zero_le 1
  · obtain ⟨-, -, ⟨-, rfl⟩ | ⟨-, hlen, -⟩⟩ := h
    · exact Nat.zero_le 1
    · exact hlen
  · obtain ⟨-, -, -, rfl, -⟩ := h
    exact Nat.zero_le 1
  · rw [h.2]
    exact Nat.zero_le 1

/-- Where bytes are on their way and none are left to write, the run thread
waits for the answer to them. -/
theorem Framing.waiting {run : Run Count} {last : Option (Bitstream × List UInt8)}
    {wire stream : List UInt8} {inFlight : List (Answer Count)}
    (h : Framing run last wire stream inFlight) (hstream : stream ≠ [])
    (hrun : run.uploading = false) :
    ∃ b, run = .waitUntilPulse b ∧ last = some (b, stream) ∧ inFlight = [] := by
  rw [Framing.eq_def] at h
  split at h
  · cases hrun
  · rename_i b
    obtain ⟨data, hlast, ⟨rfl, hnone⟩ | ⟨hnil, -, -⟩⟩ := h
    · exact ⟨b, rfl, hlast, hnone⟩
    · exact absurd hnil hstream
  · obtain ⟨-, -, hnil, -⟩ := h
    exact absurd hnil hstream
  · exact absurd h.1 hstream

/-! ### The firmware's steps -/

/-- The answers in a message are those of its text. -/
@[simp] theorem answers_signals (w : Written) : answers w.signals =
    (answers w.message.signals).map (Answer.map fun digits => ⟨digits, w⟩) := by
  simp [Written.signals]

/-- Messages without an answer put none on the way. -/
theorem flatMap_answers_eq_nil {ms : List Message} (h : ∀ m ∈ ms, answers m.signals = [])
    (f : Firmware) :
    ((ms.map fun m => (⟨m, f⟩ : Written)).flatMap fun w => answers w.signals) = [] := by
  rw [List.flatMap_eq_nil_iff]
  intro w hw
  obtain ⟨m, hm, rfl⟩ := List.mem_map.mp hw
  simp [h m hm]

/-- The answers a firmware puts on the way, with what they answer in its buffer. -/
theorem answers_of_answer {f : Firmware} {m : Message} {e : Environment}
    (h : answers m.signals = [.timeout] ∨
      (f.currentState = .flashFpga ∧ m = .pulses e.times e.pulseCount)) :
    (answers (Written.signals ⟨m, f⟩)).length ≤ 1 ∧
      ∀ a ∈ answers (Written.signals ⟨m, f⟩), Answers f.received a := by
  rw [answers_signals]
  rcases h with htimeout | ⟨hstate, rfl⟩
  · rw [htimeout]
    refine ⟨Nat.le_refl 1, fun a ha v hv => ?_⟩
    rw [List.mem_singleton.mp ha] at hv
    cases hv
  · have hreceived : f.received = f.bitstream := by rw [Firmware.received, hstate]
    have hanswers : answers (Message.pulses e.times e.pulseCount).signals =
        (searchPulses (Message.pulses e.times e.pulseCount).text).toList.map .pulses := by
      rw [Message.signals]
      cases searchPulses (Message.pulses e.times e.pulseCount).text <;> rfl
    rw [hanswers, hreceived]
    constructor
    · rw [List.length_map, List.length_map]
      exact Option.length_toList_le
    · rintro a ha v rfl
      obtain ⟨a', ha', hv⟩ := List.mem_map.mp ha
      obtain ⟨digits, hdigits, rfl⟩ := List.mem_map.mp ha'
      obtain rfl := Answer.pulses.inj hv
      exact ⟨hstate, rfl, ⟨e.times, e.pulseCount, rfl⟩, Option.mem_toList.mp hdigits⟩

/-- **An iteration of the firmware keeps the framing**, if it is framed. -/
theorem Inv.stepFirmware {s : System} (hs : s.Inv) {e : Environment} (hc : e.connected = true)
    (hframed : s.Framed (.firmware e)) : (s.stepFirmware e).Inv := by
  by_cases ha : s.firmware.answers e = true
  · obtain ⟨hrx, hnot⟩ := hframed ha
    have hbytes : s.stream = s.firmware.received := by rw [stream, hrx, List.append_nil]
    -- the run thread waits for this answer
    obtain ⟨b, hrun, hlast, hnone⟩ :=
      hs.framing.waiting (hs.busy (Firmware.busy_of_answers ha)) hnot
    obtain ⟨hok, hidle, hrest, pre, m, hmessages, hpre, hm⟩ :=
      Firmware.iterate_of_answers hs.firmware hc ha
    obtain ⟨hlen, hall⟩ := answers_of_answer hm
    have hflight : (s.stepFirmware e).inFlight =
        answers (Written.signals ⟨m, s.firmware⟩) := by
      have happend : (s.stepFirmware e).inFlight = s.inFlight ++
          ((s.firmware.iterate e s.rx).messages.map fun m => (⟨m, s.firmware⟩ : Written)).flatMap
            fun w => answers w.signals := by
        rw [inFlight, inFlight, System.stepFirmware, List.flatMap_append, List.append_assoc]
      rw [happend, hnone, hrx, hmessages, List.map_append, List.flatMap_append,
        flatMap_answers_eq_nil hpre, List.map_singleton, List.flatMap_singleton]
      rfl
    have hstream : (s.stepFirmware e).stream = [] := by
      rw [stream, System.stepFirmware, hrx, Firmware.received_of_not_busy hidle, hrest]
      rfl
    refine ⟨hs.filed, hs.carried, hs.exiting, ?_, fun hbusy => ?_, ?_, hs.stored⟩
    · rw [System.stepFirmware, hrx]
      exact hok
    · rw [System.stepFirmware, hrx, hidle] at hbusy
      cases hbusy
    · rw [hstream, hflight]
      show Framing s.host.run _ _ _ _
      rw [hrun]
      exact ⟨s.stream, hlast, Or.inr ⟨rfl, hlen, hbytes ▸ hall⟩⟩
  · obtain ⟨hok, hbytes, hbusy, hmessages⟩ := Firmware.iterate_of_not_answers hs.firmware hc
      hs.busy (Bool.eq_false_iff.mpr ha)
    have hflight : (s.stepFirmware e).inFlight = s.inFlight := by
      rw [inFlight, inFlight, System.stepFirmware, List.flatMap_append,
        flatMap_answers_eq_nil hmessages, List.append_nil]
    have hstream : (s.stepFirmware e).stream = s.stream := hbytes
    refine ⟨hs.filed, hs.carried, hs.exiting, hok, fun h => ?_, ?_, hs.stored⟩
    · rw [hstream]
      exact hbusy h
    · rw [hflight, hstream]
      exact hs.framing

/-! ### The host's steps -/

/-- The loop over the chunks goes on, or the upload is complete: all that is
written is on its way. -/
theorem framing_uploadFrom {h : Host Count} {stream : List UInt8} {inFlight : List (Answer Count)}
    (hstream : stream = h.wire) (hnone : inFlight = []) (b : Bitstream) (data : List UInt8)
    (i : ℕ) :
    Framing (h.uploadFrom b data i).run (h.uploadFrom b data i).history.uploads.getLast?
      (h.uploadFrom b data i).wire stream inFlight := by
  rw [Host.uploadFrom]
  split
  · exact ⟨hstream, hnone⟩
  · exact ⟨h.wire, List.getLast?_concat, Or.inl ⟨hstream, hnone⟩⟩

/-- The answers in what a step of the host reads. -/
def read : HostInput Written → List (Answer Count)
  | .receive w => answers w.signals
  | .request .. | .queue _ | .run | .read | .handleExit => []

/-- Outside the loop over the chunks nothing is written, and the framing is as it
was. -/
theorem framing_of_run {s : System} (hs : s.Inv) {r : Run Count} (hrun : s.host.run = r)
    (hloop : r.uploading = false) {rest : List (Answer Count)}
    (hrest : (s.messages.flatMap fun w => answers w.signals) = rest) :
    Framing r s.host.history.uploads.getLast? s.host.wire
      (s.stream ++ s.host.emits (δ := Written) .run) (s.host.reader.held ++ rest) := by
  have hemits : s.host.emits (δ := Written) .run = [] := by
    rw [Host.emits]
    split
    · rename_i hup
      rw [← hrun, hup] at hloop
      cases hloop
    · rfl
  have hfr := hs.framing
  rw [inFlight, hrest, hrun] at hfr
  rw [hemits, List.append_nil]
  exact hfr

/-- **A step of the host keeps the framing.** -/
theorem framing_stepHost {s : System} (hs : s.Inv) {i : HostInput Written} {host : Host Count}
    (h : s.host.step Written.signals i = some host) {rest : List (Answer Count)}
    (hrest : (s.messages.flatMap fun w => answers w.signals) = read i ++ rest) :
    Framing host.run host.history.uploads.getLast? host.wire (s.stream ++ s.host.emits i)
      (host.reader.held ++ rest) := by
  have hfr := hs.framing
  rw [inFlight, hrest] at hfr
  cases Host.rule_of_step h with
  | loop hrun => exact framing_of_run hs hrun rfl hrest
  | leave hrun =>
    rcases hrun with hloop | htake | ⟨b, hread, -⟩
    · exact framing_of_run hs hloop rfl hrest
    · exact framing_of_run hs htake rfl hrest
    · exact framing_of_run hs hread rfl hrest
  | take hrun hb => exact framing_of_run hs hrun rfl hrest
  | read hrun hfile => exact framing_of_run hs hrun rfl hrest
  | ready hrun hr =>
    obtain ⟨hstream, hnone⟩ := framing_of_run hs hrun rfl hrest
    refine framing_uploadFrom hstream ?_ _ _ _
    show (Host.uploadFrom _ _ _ _).reader.held ++ rest = []
    rw [Host.reader_uploadFrom]
    show Reader.held _ ++ rest = []
    rw [(Reader.waitUntilReady_spec hr).1]
    exact hnone
  | @chunk b data i hrun =>
    have hchunk : s.host.emits (δ := Written) .run = (data.drop i).take chunkSize := by
      rw [Host.emits, hrun]
    rw [hrun] at hfr
    rw [hchunk]
    refine framing_uploadFrom ?_ ?_ _ _ _
    · rw [hfr.1]
    · rw [Host.reader_uploadFrom]
      exact hfr.2
  | @pulse b result reader hrun hr =>
    obtain ⟨-, hheld, hexit⟩ := Reader.waitUntilPulse_spec hr
    have hpulse := framing_of_run hs hrun rfl hrest
    rw [hheld] at hpulse
    cases result with
    | none => exact absurd (hrun.symm.trans (hs.exiting (hexit rfl))) nofun
    | some a =>
      -- the one answer on its way is taken
      obtain ⟨data, hlast, ⟨-, hnone⟩ | ⟨hstream, hlen, hall⟩⟩ := hpulse
      · cases hnone
      · have hnil : reader.held ++ rest = [] := by
          rw [← List.length_eq_zero_iff]
          have hle : (reader.held ++ rest).length + 1 ≤ 1 := hlen
          omega
        refine ⟨data, hlast, hstream, hnil, fun a' ha' => ?_⟩
        exact Option.some.inj ha' ▸ hall a List.mem_cons_self
  | requeue hrun | store hrun =>
    obtain ⟨-, -, hstream, hnone, -⟩ := framing_of_run hs hrun rfl hrest
    exact ⟨hstream, hnone⟩
  | remove hrun => exact framing_of_run hs hrun rfl hrest
  | send hrun hqueue => exact framing_of_run hs hrun rfl hrest
  | keep hrun => exact framing_of_run hs hrun rfl hrest
  | receive hr =>
    rw [Host.emits, List.append_nil, (Reader.receive_spec hr).1, List.append_assoc]
    exact hfr
  | signal hr =>
    have hle : s.host.reader.held.length ≤ 1 := by
      have hlen := hfr.length_le
      rw [List.length_append] at hlen
      omega
    rw [Host.emits, List.append_nil, Reader.held_step hr hle]
    exact hfr
  | _ =>
    rw [Host.emits, List.append_nil]
    exact hfr

/-- A step of the host leaves the counts stored, or stores the one it judges. -/
theorem stored_step {s t : Host Count} {i : HostInput Written}
    (h : s.step Written.signals i = some t) {b : Bitstream} {v : Count}
    (hv : (b, some v) ∈ t.history.stored) :
    (b, some v) ∈ s.history.stored ∨ s.run = .judge b (some (.pulses v)) := by
  cases Host.rule_of_step h with
  | ready hrun hr =>
    obtain ⟨run, uploads, heq⟩ := Host.uploadFrom_eq _ _ _ _
    rw [heq] at hv
    exact Or.inl hv
  | chunk hrun =>
    obtain ⟨run, uploads, heq⟩ := Host.uploadFrom_eq _ _ _ _
    rw [heq] at hv
    exact Or.inl hv
  | store hrun =>
    rcases List.mem_append.mp hv with hold | hnew
    · exact Or.inl hold
    · obtain ⟨rfl, rfl⟩ := Prod.mk.inj (List.mem_singleton.mp hnew)
      exact Or.inr hrun
  | _ => exact Or.inl hv

theorem Inv.stepHost {s t : System} (hs : s.Inv) {i : HostInput Written}
    {messages : List Written}
    (hmessages : (s.messages.flatMap fun w => answers w.signals) =
      read i ++ messages.flatMap fun w => answers w.signals)
    (h : s.stepHost i messages = some t) : t.Inv := by
  obtain ⟨host, hstep, rfl⟩ := Option.map_eq_some_iff.mp h
  have hstream : System.stream { s with
      host := host
      rx := s.rx ++ s.host.emits i
      messages := messages } = s.stream ++ s.host.emits i := by
    rw [stream, stream, List.append_assoc]
  refine ⟨Host.filed_step hs.filed hstep, Host.carried_step hs.filed hs.carried hstep,
    Host.ended_of_exiting_step hs.exiting hstep, hs.firmware, fun hbusy => ?_, ?_, ?_⟩
  · rw [hstream]
    exact fun hnil => hs.busy hbusy (List.append_eq_nil_iff.mp hnil).1
  · rw [hstream]
    exact framing_stepHost hs hstep hmessages
  · intro b v hv
    have hmono := Host.submitted_step hstep
    rcases stored_step hstep hv with hold | hrun
    · obtain ⟨data, hdata, hflashed⟩ := hs.stored b v hold
      exact ⟨data, hdata.mono hmono, hflashed⟩
    · -- the count judged answers the last upload, which is of the bytes submitted
      have hfr := hs.framing
      rw [hrun] at hfr
      obtain ⟨data, hlast, -, -, hall⟩ := hfr
      have hdata := hs.carried.uploads _ (List.mem_of_getLast? hlast)
      exact ⟨data, hdata.mono hmono, hall _ rfl v rfl⟩

/-- **Every framed step keeps the invariant.** -/
theorem inv_step {s t : System} {i : SystemInput} (hs : s.Inv) (hframed : s.Framed i)
    (h : s.step i = some t) : t.Inv := by
  cases i with
  | request paths files => exact hs.stepHost rfl h
  | queue k => exact hs.stepHost rfl h
  | run => exact hs.stepHost rfl h
  | read => exact hs.stepHost rfl h
  | handleExit => exact hs.stepHost rfl h
  | deliver =>
    simp only [step] at h
    split at h
    · rename_i w messages hw
      exact hs.stepHost (by rw [hw]; rfl) h
    · cases h
  | firmware e =>
    simp only [step] at h
    split at h
    · rename_i hc
      obtain rfl := Option.some.inj h
      exact hs.stepFirmware hc hframed
    · cases h

end System

end UsbipIce.PulseCount
