import Mathlib.Algebra.Group.Int.Defs
import Mathlib.Data.Int.Notation
import UsbipIce.PulseCount.Reader

/-!
# The firmware of a pulse-counting device

The loop of `worker/firmware/pulse_count/main.cpp`. It waits for bytes on the
serial port, collects `bitstreamSizeLengthBytes` of them in a buffer, flashes
the buffer, counts pulses for a while and reports the count; a watchdog gives up
a transfer that takes too long. The port carries bytes without any framing: a
transfer begins with whatever byte is there next.

One step is one iteration of the loop (`UsbipIce.PulseCount.Firmware.iterate`).
It takes what it reads from the front of the bytes sent to the device and not
read yet; how many of them have arrived, how many one `tud_cdc_n_read` returns,
what the clock shows and whether the port is connected are open. The lights are
left out.

The second half is what the reader on the other side makes of the messages
(`UsbipIce.PulseCount.Message.signals_text`): the text of a message leads to a
signal exactly where it is a count, a watchdog timeout or the announcement that
the firmware waits.
-/

namespace UsbipIce.PulseCount

open Lib

/-- `bitstreamSizeLengthBytes`. -/
def bitstreamSizeLengthBytes : ℕ := 104090

/-- `watchdogTimout_us`. -/
def watchdogTimeoutUs : ℤ := 2000000

/-- `enum STATES`. -/
inductive States where
  | init
  | waitForUsbConnection
  | usbConnected
  | usbDisconnected
  | waitForBitstreamTransfer
  | transferBitstream
  | flashFpga
  | idle
  deriving DecidableEq, Repr

/-- What `benchmarkFlashTime` returns. -/
structure FlashTimePacket where
  initTime : ℤ
  startTime : ℤ
  openTime : ℤ
  writeTime : ℤ
  closeTime : ℤ
  deriving DecidableEq, Repr

/-! ### Messages -/

/-- A message of the firmware. -/
inductive Message where
  | usbConnected
  | usbReconnected
  | usbDisconnected
  | waiting
  | transferStarted
  | receiving
  | watchdogTimeout (numReceived : ℕ)
  | received (us : ℤ)
  | flashing
  | pulses (times : FlashTimePacket) (count : ℕ)
  | idle
  deriving DecidableEq, Repr

/-- `%lu` and `%d` of a number that is not negative. -/
def decimal (n : ℕ) : List Char := Nat.toDigits 10 n

/-- `%lld`. -/
def signed (i : ℤ) : List Char := if i < 0 then '-' :: decimal i.natAbs else decimal i.natAbs

/-- `snprintf` into a buffer of the given size. -/
def snprintf (size : ℕ) (text : List Char) : List Char := text.take (size - 1)

/-- The times in front of the count. -/
def FlashTimePacket.text (t : FlashTimePacket) : List Char :=
  "FPGA Flash times (us): init ".toList ++ signed t.initTime ++
    ", start ".toList ++ signed t.startTime ++ ", open ".toList ++ signed t.openTime ++
    ", write ".toList ++ signed t.writeTime ++ ", close ".toList ++ signed t.closeTime

/-- What is written to the port. -/
def Message.text : Message → List Char
  | .usbConnected => "USB Connected :)\r\n".toList
  | .usbReconnected => "USB Reconnected :)\r\n".toList
  | .usbDisconnected => "USB Disconnected :(\r\n".toList
  | .waiting => "Waiting for bitstream transfer\r\n".toList
  | .transferStarted => "Bitstream transfer started\r\n".toList
  | .receiving => "Receiving bitstream\r\n".toList
  | .watchdogTimeout n =>
    snprintf 64 ("Watchdog timeout, ".toList ++ decimal n ++ " bytes received of ".toList ++
      decimal bitstreamSizeLengthBytes ++ "\r\n".toList)
  | .received us =>
    snprintf 64 ("Received bitstream in ".toList ++ decimal (us % 2 ^ 32).toNat ++
      " us :)\r\n".toList)
  | .flashing => "Flashing FPGA\r\n".toList
  | .pulses times count =>
    snprintf 128 (times.text ++ "\r\n, pulses: ".toList ++ decimal count ++ "\r\n".toList)
  | .idle => "IDLE\r\n".toList

/-! ### The loop -/

/-- The variables of the firmware. -/
structure Firmware where
  currentState : States
  previousState : States
  done : Bool
  bitstream : List UInt8
  numReceivedBitstreamBytes : ℕ
  bitstreamStartTime : ℤ

/-- What an iteration finds outside. -/
structure Environment where
  /-- `tud_cdc_connected()`. -/
  connected : Bool
  /-- How many of the bytes sent to the device have arrived at most. -/
  available : ℕ
  /-- How many bytes `tud_cdc_n_read` returns at most. -/
  count : ℕ
  /-- The clock where a transfer begins. -/
  entered : ℤ
  /-- The clock where the watchdog is checked. -/
  checked : ℤ
  /-- The clock after the watchdog has expired. -/
  restarted : ℤ
  /-- The clock where a transfer is complete. -/
  completed : ℤ
  /-- What `benchmarkFlashTime` returns. -/
  times : FlashTimePacket
  /-- `pulse_count` after the count. -/
  pulseCount : ℕ

/-- What an iteration leaves: the firmware, the bytes not read yet, and the
messages written. -/
structure Iteration where
  firmware : Firmware
  rx : List UInt8
  messages : List Message

namespace Firmware

/-- The firmware after a reset. -/
def boot : Firmware where
  currentState := .init
  previousState := .init
  done := false
  bitstream := List.replicate bitstreamSizeLengthBytes 0
  numReceivedBitstreamBytes := 0
  bitstreamStartTime := 0

/-- `tud_cdc_available()`. -/
def available (e : Environment) (rx : List UInt8) : ℕ := min e.available rx.length

/-- The state differs from that of the last iteration. -/
def isNew (f : Firmware) : Bool := decide (f.previousState ≠ f.currentState)

/-- A transfer begins. -/
def enterTransfer (f : Firmware) (e : Environment) : Firmware × List Message :=
  if f.isNew then
    ({ f with
        numReceivedBitstreamBytes := 0
        bitstreamStartTime := e.entered
        previousState := f.currentState }, [.receiving])
  else (f, [])

/-- The watchdog is checked. Where it has expired, the rest of the iteration goes
on nevertheless. -/
def checkWatchdog (f : Firmware) (e : Environment) : Firmware × List Message :=
  if e.checked - f.bitstreamStartTime > watchdogTimeoutUs then
    ({ f with
        previousState := f.currentState
        currentState := .waitForBitstreamTransfer
        bitstreamStartTime := e.restarted }, [.watchdogTimeout f.numReceivedBitstreamBytes])
  else (f, [])

/-- How many bytes `tud_cdc_n_read` is asked for. -/
def numToRead (f : Firmware) (numBytesAvailable : ℕ) : ℕ :=
  if f.numReceivedBitstreamBytes + numBytesAvailable > bitstreamSizeLengthBytes then
    bitstreamSizeLengthBytes - f.numReceivedBitstreamBytes
  else numBytesAvailable

/-- `tud_cdc_n_read` into the buffer at `numReceivedBitstreamBytes`. -/
def readBytes (f : Firmware) (e : Environment) (rx : List UInt8) : Firmware × List UInt8 :=
  if available e rx > 0 then
    let count := min e.count (f.numToRead (available e rx))
    ({ f with
        bitstream := f.bitstream.take f.numReceivedBitstreamBytes ++ rx.take count ++
          f.bitstream.drop (f.numReceivedBitstreamBytes + count)
        numReceivedBitstreamBytes := f.numReceivedBitstreamBytes + count }, rx.drop count)
  else (f, rx)

/-- The transfer is complete, or not. -/
def checkComplete (f : Firmware) (e : Environment) : Firmware × List Message :=
  if f.numReceivedBitstreamBytes ≥ bitstreamSizeLengthBytes then
    ({ f with
        previousState := f.currentState
        currentState := .flashFpga }, [.received (e.completed - f.bitstreamStartTime)])
  else (f, [])

/-- `case TRANSFER_BITSTREAM`. -/
def transfer (f : Firmware) (e : Environment) (rx : List UInt8) : Iteration :=
  let entered := f.enterTransfer e
  if e.connected then
    let checked := entered.1.checkWatchdog e
    let read := checked.1.readBytes e rx
    let completed := read.1.checkComplete e
    ⟨completed.1, read.2, entered.2 ++ checked.2 ++ completed.2⟩
  else
    ⟨{ entered.1 with
        previousState := entered.1.currentState
        currentState := .usbDisconnected
        numReceivedBitstreamBytes := 0 }, rx, entered.2⟩

/-- The messages at the entry to a state. -/
def announce (f : Firmware) (m : Message) : List Message := if f.isNew then [m] else []

/-- **One iteration**: of the inner loop, or, before the port is connected and
after the inner loop is done, of the outer one. -/
def iterate (f : Firmware) (e : Environment) (rx : List UInt8) : Iteration :=
  match f.currentState with
  | .init => ⟨{ f with currentState := .waitForUsbConnection }, rx, []⟩
  | .waitForUsbConnection =>
    if e.connected then
      ⟨{ f with
          currentState := .usbConnected
          done := false
          bitstreamStartTime := e.entered }, rx, [.usbConnected]⟩
    else ⟨f, rx, []⟩
  | .usbConnected =>
    if f.isNew ∧ f.previousState ≠ .init then
      ⟨{ f with
          previousState := .usbConnected
          currentState := .waitForBitstreamTransfer }, rx, [.usbReconnected]⟩
    else ⟨{ f with currentState := .waitForBitstreamTransfer }, rx, []⟩
  | .usbDisconnected =>
    if e.connected then
      ⟨{ f with
          previousState := .usbDisconnected
          currentState := .usbConnected }, rx, []⟩
    else ⟨{ f with previousState := .usbDisconnected }, rx, f.announce .usbDisconnected⟩
  | .waitForBitstreamTransfer =>
    let started := decide (available e rx > 0)
    ⟨{ f with
        previousState := .waitForBitstreamTransfer
        currentState :=
          if e.connected then
            if started then .transferBitstream else .waitForBitstreamTransfer
          else .usbDisconnected }, rx,
      f.announce .waiting ++ if started then [.transferStarted] else []⟩
  | .transferBitstream => f.transfer e rx
  | .flashFpga =>
    ⟨{ f with
        previousState := .flashFpga
        currentState := .idle }, rx,
      f.announce .flashing ++ [.pulses e.times e.pulseCount]⟩
  | .idle =>
    if f.done then ⟨{ f with currentState := .waitForUsbConnection }, rx, []⟩
    else
      ⟨{ f with
          previousState := .idle
          done := true }, rx, f.announce .idle⟩

end Firmware

/-! ### What the reader makes of the messages -/

theorem digit_of_mem_decimal {n : ℕ} {c : Char} (h : c ∈ decimal n) : c.isDigit = true :=
  Nat.isDigit_of_mem_toDigits (by decide) (by decide) h

theorem not_mem_decimal {c : Char} (hc : c.isDigit = false) (n : ℕ) : c ∉ decimal n :=
  fun h => Bool.false_ne_true (hc.symm.trans (digit_of_mem_decimal h))

theorem not_mem_signed {c : Char} (hc : c.isDigit = false) (hminus : c ≠ '-') (i : ℤ) :
    c ∉ signed i := by
  rw [signed]
  split
  · exact List.not_mem_cons_of_ne_of_not_mem hminus (not_mem_decimal hc _)
  · exact not_mem_decimal hc _

theorem not_mem_snprintf {c : Char} {size : ℕ} {text : List Char} (h : c ∉ text) :
    c ∉ snprintf size text :=
  fun hc => h (List.mem_of_mem_take hc)

namespace Message

/-- The signals a message is read as. -/
def signals (m : Message) : List (Signal (List Char)) :=
  match m with
  | .waiting => [.wait]
  | .watchdogTimeout _ => [.timeout]
  | .pulses .. => (searchPulses m.text).toList.map .pulses
  | _ => []

/-- A text without a `p` and without a `W` leads to no signal. -/
theorem signals_eq_nil {text : List Char} (hp : 'p' ∉ text) (hW : 'W' ∉ text) :
    PulseCount.signals text = [] := by
  have hw : occurs "Watchdog timeout".toList text = false := occurs_of_not_mem hW
  have hw' : occurs "Waiting for bitstream transfer".toList text = false := occurs_of_not_mem hW
  rw [PulseCount.signals, searchPulses_of_not_mem hp, hw, hw']
  rfl

/-- A text without a `p` that starts as the watchdog's does, and has no further
`W`, leads to a timeout. -/
theorem signals_watchdog {text : List Char} (hp : 'p' ∉ text) (hW : 'W' ∉ text) :
    PulseCount.signals ("Watchdog timeout".toList ++ text) = [.timeout] := by
  have hp' : 'p' ∉ "Watchdog timeout".toList ++ text := List.not_mem_append (by decide) hp
  have hfound : occurs "Watchdog timeout".toList ("Watchdog timeout".toList ++ text) = true := by
    have hsome : (("Watchdog timeout".toList ++ text).dropPrefix? "Watchdog timeout".toList).bind
        some = some text := by
      rw [dropPrefix?_append]
      rfl
    rw [occurs, search_of_some (r := text) hsome]
    rfl
  have hnot : occurs "Waiting for bitstream transfer".toList ("Watchdog timeout".toList ++ text) =
      false := by
    have hhead : (List.dropPrefix? ('W' :: ("atchdog timeout".toList ++ text))
        "Waiting for bitstream transfer".toList).bind some = none := rfl
    have htail : 'W' ∉ "atchdog timeout".toList ++ text := List.not_mem_append (by decide) hW
    rw [occurs, Option.isSome_eq_false_iff, Option.isNone_iff_eq_none]
    exact (search_cons hhead).trans (search_eq_none_of_not_mem (startsWith_dropPrefix? some) htail)
  rw [PulseCount.signals, searchPulses_of_not_mem hp', hfound, hnot]
  rfl

/-- A text without a `W` leads to a count at most. -/
theorem signals_of_not_mem {text : List Char} (hW : 'W' ∉ text) :
    PulseCount.signals text = (searchPulses text).toList.map .pulses := by
  have hw : occurs "Watchdog timeout".toList text = false := occurs_of_not_mem hW
  have hw' : occurs "Waiting for bitstream transfer".toList text = false := occurs_of_not_mem hW
  rw [PulseCount.signals, hw, hw']
  exact (List.append_nil _).trans (List.append_nil _)

theorem not_mem_text_times (t : FlashTimePacket) : 'W' ∉ t.text := by
  have hfield : ∀ (l literal : List Char) (i : ℤ), 'W' ∉ l → 'W' ∉ literal →
      'W' ∉ l ++ literal ++ signed i := fun l literal i hl hliteral =>
    List.not_mem_append (List.not_mem_append hl hliteral) (not_mem_signed rfl (by decide) i)
  have hinit : 'W' ∉ "FPGA Flash times (us): init ".toList ++ signed t.initTime :=
    List.not_mem_append (by decide) (not_mem_signed rfl (by decide) _)
  exact hfield _ _ _ (hfield _ _ _ (hfield _ _ _ (hfield _ _ _ hinit (by decide)) (by decide))
    (by decide)) (by decide)

/-- The buffer of the watchdog's message is large enough for its beginning. -/
theorem take_watchdog (n m : ℕ) :
    snprintf 64 ("Watchdog timeout, ".toList ++ decimal n ++ " bytes received of ".toList ++
      decimal m ++ "\r\n".toList) =
    "Watchdog timeout".toList ++ (", ".toList ++ decimal n ++ " bytes received of ".toList ++
      decimal m ++ "\r\n".toList).take 47 := by
  have hsplit : "Watchdog timeout, ".toList = "Watchdog timeout".toList ++ ", ".toList := by decide
  have hall : "Watchdog timeout".toList.take (64 - 1) = "Watchdog timeout".toList := by decide
  have hlen : 64 - 1 - "Watchdog timeout".toList.length = 47 := by decide
  have hassoc : ∀ a b c d e : List Char, a ++ b ++ c ++ d ++ e = a ++ (b ++ c ++ d ++ e) := by
    intro a b c d e
    rw [List.append_assoc, List.append_assoc, List.append_assoc, List.append_assoc,
      List.append_assoc]
  rw [snprintf, hassoc, hsplit, List.append_assoc, List.take_append, hall, hlen, hassoc]

theorem not_mem_watchdog {c : Char} (hc : c.isDigit = false) (h₁ : c ∉ ", ".toList)
    (h₂ : c ∉ " bytes received of ".toList) (h₃ : c ∉ "\r\n".toList) (n m : ℕ) :
    c ∉ ", ".toList ++ decimal n ++ " bytes received of ".toList ++ decimal m ++ "\r\n".toList :=
  List.not_mem_append (List.not_mem_append (List.not_mem_append
    (List.not_mem_append h₁ (not_mem_decimal hc _)) h₂) (not_mem_decimal hc _)) h₃

@[simp] theorem signals_snprintf_watchdog (n m : ℕ) :
    PulseCount.signals (snprintf 64 ("Watchdog timeout, ".toList ++ decimal n ++
      " bytes received of ".toList ++ decimal m ++ "\r\n".toList)) = [.timeout] := by
  rw [take_watchdog]
  exact signals_watchdog
    (fun h => not_mem_watchdog rfl (by decide) (by decide) (by decide) _ _ (List.mem_of_mem_take h))
    fun h => not_mem_watchdog rfl (by decide) (by decide) (by decide) _ _ (List.mem_of_mem_take h)

/-- **The text of a message leads to the signals it is meant for**, and to no
others. -/
@[simp] theorem signals_text (m : Message) : PulseCount.signals m.text = m.signals := by
  cases m with
  | watchdogTimeout n => exact signals_snprintf_watchdog n bitstreamSizeLengthBytes
  | received us =>
    have hnot : ∀ c : Char, c.isDigit = false → c ∉ "Received bitstream in ".toList →
        c ∉ " us :)\r\n".toList → c ∉ (Message.received us).text := fun c hc h₁ h₂ =>
      not_mem_snprintf (List.not_mem_append (List.not_mem_append h₁ (not_mem_decimal hc _)) h₂)
    exact signals_eq_nil (hnot 'p' rfl (by decide) (by decide))
      (hnot 'W' rfl (by decide) (by decide))
  | pulses times count =>
    refine signals_of_not_mem (not_mem_snprintf ?_)
    refine List.not_mem_append (List.not_mem_append (List.not_mem_append ?_ (by decide))
      (not_mem_decimal rfl _)) (by decide)
    exact not_mem_text_times times
  | usbConnected => decide
  | usbReconnected => decide
  | usbDisconnected => decide
  | waiting => decide
  | transferStarted => decide
  | receiving => decide
  | flashing => decide
  | idle => decide

end Message

/-! ### What an iteration does to the bytes -/

namespace Firmware

/-- The bytes of the transfer under way, or about to be flashed. -/
def received (f : Firmware) : List UInt8 :=
  match f.currentState with
  | .transferBitstream => if f.isNew then [] else f.bitstream.take f.numReceivedBitstreamBytes
  | .flashFpga => f.bitstream
  | _ => []

/-- A transfer is under way, or about to be flashed. -/
def busy (f : Firmware) : Bool :=
  match f.currentState with
  | .transferBitstream | .flashFpga => true
  | _ => false

/-- **The iteration answers**: the watchdog expires, or the buffer is flashed and
the pulses are counted. -/
def answers (f : Firmware) (e : Environment) : Bool :=
  match f.currentState with
  | .transferBitstream =>
    e.connected &&
      decide (e.checked - (f.enterTransfer e).1.bitstreamStartTime > watchdogTimeoutUs)
  | .flashFpga => true
  | _ => false

theorem size_pos : 0 < bitstreamSizeLengthBytes := by decide

theorem busy_of_answers {f : Firmware} {e : Environment} (h : f.answers e = true) :
    f.busy = true := by
  rw [answers.eq_def] at h
  rw [busy.eq_def]
  split at h
  · rfl
  · rfl
  · cases h

/-- The buffer has its size, and a transfer under way is not complete. -/
structure Ok (f : Firmware) : Prop where
  length : f.bitstream.length = bitstreamSizeLengthBytes
  incomplete : f.currentState = .transferBitstream → f.isNew = false →
    f.numReceivedBitstreamBytes < bitstreamSizeLengthBytes

theorem ok_boot : boot.Ok where
  length := List.length_replicate
  incomplete := nofun

/-- A transfer is entered with what was received of it before, or with nothing. -/
theorem enterTransfer_spec {f : Firmware} (hf : f.Ok) (hstate : f.currentState = .transferBitstream)
    (e : Environment) :
    (f.enterTransfer e).1.currentState = .transferBitstream ∧
      (f.enterTransfer e).1.previousState = .transferBitstream ∧
      (f.enterTransfer e).1.bitstream = f.bitstream ∧
      f.bitstream.take (f.enterTransfer e).1.numReceivedBitstreamBytes = f.received ∧
      (f.enterTransfer e).1.numReceivedBitstreamBytes < bitstreamSizeLengthBytes ∧
      ∀ m ∈ (f.enterTransfer e).2, PulseCount.answers m.signals = [] := by
  rw [enterTransfer, received, hstate]
  by_cases hnew : f.isNew = true
  · rw [if_pos hnew]
    refine ⟨rfl, rfl, rfl, ?_, size_pos, fun m hm => ?_⟩
    · rw [if_pos hnew]
      exact List.take_zero
    · rw [List.mem_singleton.mp hm]
      rfl
  · have hold : f.isNew = false := Bool.eq_false_iff.mpr hnew
    rw [if_neg hnew]
    refine ⟨hstate, ?_, rfl, ?_, hf.incomplete hstate hold, fun m hm => absurd hm List.not_mem_nil⟩
    · rw [← hstate]
      exact of_not_not (of_decide_eq_false hold)
    · rw [if_neg hnew]

/-- **Reading moves bytes from the port to the buffer**, none of them lost, and
no more of them than the buffer takes. -/
theorem readBytes_spec {f : Firmware} (hlen : f.bitstream.length = bitstreamSizeLengthBytes)
    (hnum : f.numReceivedBitstreamBytes < bitstreamSizeLengthBytes) (e : Environment)
    (rx : List UInt8) :
    (f.readBytes e rx).1.currentState = f.currentState ∧
      (f.readBytes e rx).1.previousState = f.previousState ∧
      (f.readBytes e rx).1.bitstream.length = bitstreamSizeLengthBytes ∧
      (f.readBytes e rx).1.numReceivedBitstreamBytes ≤ bitstreamSizeLengthBytes ∧
      (f.readBytes e rx).1.bitstream.take (f.readBytes e rx).1.numReceivedBitstreamBytes ++
        (f.readBytes e rx).2 = f.bitstream.take f.numReceivedBitstreamBytes ++ rx := by
  rw [readBytes]
  split
  · -- `count` bytes are there to be read, and there is room for them
    have hroom : f.numReceivedBitstreamBytes + f.numToRead (available e rx) ≤
        bitstreamSizeLengthBytes := by
      rw [numToRead]
      split <;> omega
    have hthere : f.numToRead (available e rx) ≤ rx.length := by
      have hav : available e rx ≤ rx.length := Nat.min_le_right _ _
      rw [numToRead]
      split <;> omega
    generalize hcount : min e.count (f.numToRead (available e rx)) = count
    have hle : count ≤ f.numToRead (available e rx) := hcount ▸ Nat.min_le_right _ _
    have htake : (f.bitstream.take f.numReceivedBitstreamBytes).length =
        f.numReceivedBitstreamBytes := by
      rw [List.length_take]
      omega
    have hread : (rx.take count).length = count := by
      rw [List.length_take]
      omega
    refine ⟨rfl, rfl, ?_, ?_, ?_⟩
    · simp only [List.length_append, htake, hread, List.length_drop]
      omega
    · show f.numReceivedBitstreamBytes + count ≤ _
      omega
    · show (f.bitstream.take f.numReceivedBitstreamBytes ++ rx.take count ++ _).take
        (f.numReceivedBitstreamBytes + count) ++ rx.drop count = _
      have hfront : (f.bitstream.take f.numReceivedBitstreamBytes ++ rx.take count).length =
          f.numReceivedBitstreamBytes + count := by rw [List.length_append, htake, hread]
      rw [List.take_left' hfront, List.append_assoc, List.take_append_drop]
  · exact ⟨rfl, rfl, hlen, Nat.le_of_lt hnum, rfl⟩

/-- A complete transfer is about to be flashed; another goes on. -/
theorem checkComplete_spec {f : Firmware} (hstate : f.currentState = .transferBitstream)
    (hprevious : f.previousState = .transferBitstream)
    (hlen : f.bitstream.length = bitstreamSizeLengthBytes)
    (hnum : f.numReceivedBitstreamBytes ≤ bitstreamSizeLengthBytes) (e : Environment) :
    (f.checkComplete e).1.Ok ∧
      (f.checkComplete e).1.received = f.bitstream.take f.numReceivedBitstreamBytes ∧
      ∀ m ∈ (f.checkComplete e).2, PulseCount.answers m.signals = [] := by
  rw [checkComplete]
  split
  · rename_i hfull
    refine ⟨⟨hlen, nofun⟩, ?_, fun m hm => ?_⟩
    · show f.bitstream = _
      rw [List.take_of_length_le (by omega)]
    · rw [List.mem_singleton.mp hm]
      rfl
  · rename_i hpart
    have hold : f.isNew = false := decide_eq_false (not_not.mpr (hprevious.trans hstate.symm))
    refine ⟨⟨hlen, fun _ _ => Nat.lt_of_not_le hpart⟩, ?_, fun m hm => absurd hm List.not_mem_nil⟩
    rw [received, hstate, hold]
    rfl

/-- Of a transfer that the watchdog lets go on. -/
theorem transfer_spec {f : Firmware} {e : Environment} (hf : f.Ok)
    (hstate : f.currentState = .transferBitstream) (hc : e.connected = true)
    (ha : f.answers e = false) (rx : List UInt8) :
    (f.transfer e rx).firmware.Ok ∧
      (f.transfer e rx).firmware.received ++ (f.transfer e rx).rx = f.received ++ rx ∧
      ∀ m ∈ (f.transfer e rx).messages, PulseCount.answers m.signals = [] := by
  obtain ⟨hcur, hprev, hbuf, htake, hnum, hentered⟩ := enterTransfer_spec hf hstate e
  have hwatch : (f.enterTransfer e).1.checkWatchdog e = ((f.enterTransfer e).1, []) := by
    have hexp : ¬(e.checked - (f.enterTransfer e).1.bitstreamStartTime > watchdogTimeoutUs) := by
      intro hexp
      rw [answers, hstate, hc, decide_eq_true hexp] at ha
      cases ha
    rw [checkWatchdog, if_neg hexp]
  obtain ⟨hcur', hprev', hlen', hnum', hbytes⟩ :=
    readBytes_spec (hbuf ▸ hf.length) hnum e rx
  obtain ⟨hok, hreceived, hcompleted⟩ :=
    checkComplete_spec (hcur'.trans hcur) (hprev'.trans hprev) hlen' hnum' e
  have htransfer : f.transfer e rx =
      ⟨(((f.enterTransfer e).1.readBytes e rx).1.checkComplete e).1,
        ((f.enterTransfer e).1.readBytes e rx).2,
        (f.enterTransfer e).2 ++ [] ++
          (((f.enterTransfer e).1.readBytes e rx).1.checkComplete e).2⟩ := by
    simp only [transfer, hc, if_true, hwatch]
  rw [htransfer]
  refine ⟨hok, ?_, fun m hm => ?_⟩
  · show _ ++ _ = _
    rw [hreceived, hbytes, hbuf, htake]
  · rw [List.append_nil] at hm
    rcases List.mem_append.mp hm with h | h
    · exact hentered m h
    · exact hcompleted m h

/-- An announcement is not an answer. -/
theorem answers_announce {f : Firmware} {m : Message} (h : PulseCount.answers m.signals = []) :
    ∀ m' ∈ f.announce m, PulseCount.answers m'.signals = [] := by
  intro m' hm'
  rw [announce] at hm'
  split at hm'
  · rw [List.mem_singleton.mp hm', h]
  · cases hm'

@[simp] theorem received_of_not_busy {f : Firmware} (h : f.busy = false) : f.received = [] := by
  rw [busy.eq_def] at h
  rw [received.eq_def]
  split at h
  · cases h
  · cases h
  · rfl

/-- What is said of an iteration that does not answer. -/
def Keeps (f : Firmware) (rx : List UInt8) (r : Iteration) : Prop :=
  r.firmware.Ok ∧ r.firmware.received ++ r.rx = f.received ++ rx ∧
    (r.firmware.busy = true → f.received ++ rx ≠ []) ∧
    ∀ m ∈ r.messages, PulseCount.answers m.signals = []

/-- Outside a transfer there is nothing to keep but what is to be read. -/
theorem Ok.keeps {f : Firmware} (hf : f.Ok) (hbusy : f.busy = false) {rx : List UInt8}
    {f' : Firmware} (hbuf : f'.bitstream = f.bitstream) (hbusy' : f'.busy = false)
    {ms : List Message} (hms : ∀ m ∈ ms, PulseCount.answers m.signals = []) :
    Keeps f rx ⟨f', rx, ms⟩ := by
  refine ⟨⟨hbuf ▸ hf.length, fun hstate => ?_⟩, ?_, fun h => ?_, hms⟩
  · rw [busy, hstate] at hbusy'
    cases hbusy'
  · show f'.received ++ rx = _
    rw [received_of_not_busy hbusy, received_of_not_busy hbusy']
  · exact absurd (hbusy'.symm.trans h) Bool.false_ne_true

/-- **An iteration that does not answer keeps the bytes**: those received and
those still to be read are, together, the same before and after. -/
theorem iterate_of_not_answers {f : Firmware} {e : Environment} {rx : List UInt8} (hf : f.Ok)
    (hc : e.connected = true) (hbusy : f.busy = true → f.received ++ rx ≠ [])
    (ha : f.answers e = false) : Keeps f rx (f.iterate e rx) := by
  have hnone : ∀ m ∈ ([] : List Message), PulseCount.answers m.signals = [] :=
    fun m hm => absurd hm List.not_mem_nil
  have hone : ∀ m₀ : Message, PulseCount.answers m₀.signals = [] →
      ∀ m ∈ [m₀], PulseCount.answers m.signals = [] := fun m₀ h m hm => by
    rw [List.mem_singleton.mp hm, h]
  cases hstate : f.currentState with
  | init =>
    rw [iterate.eq_def, hstate]
    refine hf.keeps (by rw [busy, hstate]) ?_ ?_ hnone <;> rfl
  | waitForUsbConnection =>
    rw [iterate.eq_def, hstate]
    simp only [hc, if_true]
    refine hf.keeps (by rw [busy, hstate]) ?_ ?_ (hone _ rfl) <;> rfl
  | usbConnected =>
    rw [iterate.eq_def, hstate]
    simp only
    split
    · refine hf.keeps (by rw [busy, hstate]) ?_ ?_ (hone _ rfl) <;> rfl
    · refine hf.keeps (by rw [busy, hstate]) ?_ ?_ hnone <;> rfl
  | usbDisconnected =>
    rw [iterate.eq_def, hstate]
    simp only [hc, if_true]
    refine hf.keeps (by rw [busy, hstate]) ?_ ?_ hnone <;> rfl
  | waitForBitstreamTransfer =>
    have hidle : f.busy = false := by rw [busy, hstate]
    have hmessages : ∀ ms : List Message, (∀ m ∈ ms, PulseCount.answers m.signals = []) →
        ∀ m ∈ f.announce .waiting ++ ms, PulseCount.answers m.signals = [] := fun ms hms m hm =>
      (List.mem_append.mp hm).elim (answers_announce rfl m) (hms m)
    rw [iterate.eq_def, hstate]
    simp only [hc, if_true]
    by_cases hav : available e rx > 0
    · -- a transfer starts, of which nothing is received yet
      rw [decide_eq_true hav]
      have hrx : rx ≠ [] := by
        rintro rfl
        have hzero : available e [] = 0 := Nat.min_zero _
        omega
      refine ⟨⟨hf.length, nofun⟩, ?_, fun _ h => hrx (List.append_eq_nil_iff.mp h).2,
        hmessages _ (hone _ rfl)⟩
      rw [received_of_not_busy hidle]
      rfl
    · rw [decide_eq_false hav]
      refine hf.keeps hidle ?_ ?_ (hmessages _ hnone) <;> rfl
  | transferBitstream =>
    obtain ⟨hok, hbytes, hmessages⟩ := transfer_spec hf hstate hc ha rx
    rw [iterate.eq_def, hstate]
    exact ⟨hok, hbytes, fun _ => hbusy (by rw [busy, hstate]), hmessages⟩
  | flashFpga =>
    rw [answers, hstate] at ha
    cases ha
  | idle =>
    rw [iterate.eq_def, hstate]
    simp only
    split
    · refine hf.keeps (by rw [busy, hstate]) ?_ ?_ hnone <;> rfl
    · refine hf.keeps (by rw [busy, hstate]) ?_ ?_ (answers_announce rfl)
      · rfl
      · rw [busy]

/-- **An iteration that answers with nothing left to read** ends the transfer
with exactly one answer: the timeout, or the count of what was flashed. -/
theorem iterate_of_answers {f : Firmware} {e : Environment} (hf : f.Ok)
    (hc : e.connected = true) (ha : f.answers e = true) :
    (f.iterate e []).firmware.Ok ∧ (f.iterate e []).firmware.busy = false ∧
      (f.iterate e []).rx = [] ∧
      ∃ pre m, (f.iterate e []).messages = pre ++ [m] ∧
        (∀ m' ∈ pre, PulseCount.answers m'.signals = []) ∧
        (PulseCount.answers m.signals = [.timeout] ∨
          (f.currentState = .flashFpga ∧ m = .pulses e.times e.pulseCount)) := by
  rw [answers.eq_def] at ha
  split at ha
  · rename_i hstate
    obtain ⟨-, -, hbuf, -, hnum, hentered⟩ := enterTransfer_spec hf hstate e
    rw [hc, Bool.true_and] at ha
    have hwatch : (f.enterTransfer e).1.checkWatchdog e =
        ({ (f.enterTransfer e).1 with
            previousState := (f.enterTransfer e).1.currentState
            currentState := .waitForBitstreamTransfer
            bitstreamStartTime := e.restarted },
          [.watchdogTimeout (f.enterTransfer e).1.numReceivedBitstreamBytes]) := by
      rw [checkWatchdog, if_pos (of_decide_eq_true ha)]
    -- nothing is left to read, and the transfer is not complete
    have hread : ∀ f' : Firmware, f'.readBytes e [] = (f', []) := fun f' => by
      have hzero : available e [] = 0 := Nat.min_zero _
      rw [readBytes, hzero, if_neg (Nat.lt_irrefl 0)]
    have hpart : ∀ f' : Firmware, f'.numReceivedBitstreamBytes < bitstreamSizeLengthBytes →
        f'.checkComplete e = (f', []) := fun f' h => by
      rw [checkComplete, if_neg (Nat.not_le_of_lt h)]
    have hit : f.iterate e [] =
        ⟨{ (f.enterTransfer e).1 with
            previousState := (f.enterTransfer e).1.currentState
            currentState := .waitForBitstreamTransfer
            bitstreamStartTime := e.restarted }, [],
          (f.enterTransfer e).2 ++
            [.watchdogTimeout (f.enterTransfer e).1.numReceivedBitstreamBytes]⟩ := by
      rw [iterate.eq_def, hstate]
      simp only [transfer, hc, if_true, hwatch, hread]
      rw [hpart _ (by exact hnum), List.append_nil]
    rw [hit]
    exact ⟨⟨hbuf ▸ hf.length, nofun⟩, rfl, rfl, (f.enterTransfer e).2, _, rfl, hentered,
      Or.inl rfl⟩
  · rename_i hstate
    rw [iterate.eq_def, hstate]
    exact ⟨⟨hf.length, nofun⟩, rfl, rfl, f.announce .flashing, _, rfl, answers_announce rfl,
      Or.inr ⟨rfl, rfl⟩⟩
  · cases ha

end Firmware

end UsbipIce.PulseCount
