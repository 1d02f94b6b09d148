import UsbipIce.PulseCount.Link

/-!
# Whose count is it

The theorem about the link, and two families of runs that bound it, one run for
every bitstream. In the first the firmware reads the whole upload before it
answers, and the count is the bitstream's
(`UsbipIce.PulseCount.System.exists_stored`). In the second the watchdog
expires after one byte. The rest of the upload stays in the link and becomes the
beginning of the next transfer, which the second upload completes with its first
byte: what is flashed, counted and stored for the bitstream is the bitstream
turned round by one byte (`UsbipIce.PulseCount.System.exists_rotated`).

Both are put together from the same passages: an upload
(`UsbipIce.PulseCount.System.uploads`), a transfer that is flashed
(`UsbipIce.PulseCount.System.flashes`), the messages read
(`UsbipIce.PulseCount.System.delivers`), the answer judged.
-/

namespace UsbipIce.PulseCount

open Lib

/-! ### Passages of the firmware -/

namespace Firmware

/-- The firmware waits and is about to say so, with a buffer of its size. -/
structure Waiting (f : Firmware) : Prop where
  state : f.currentState = .waitForBitstreamTransfer
  new : f.isNew = true
  length : f.bitstream.length = bitstreamSizeLengthBytes

variable {f : Firmware} {e : Environment} {rx : List UInt8}

/-- A waiting firmware finds bytes there. -/
theorem Waiting.iterate (hf : f.Waiting) (hc : e.connected = true) (hav : 0 < available e rx) :
    f.iterate e rx = ⟨{ f with
      previousState := .waitForBitstreamTransfer
      currentState := .transferBitstream }, rx, [.waiting, .transferStarted]⟩ := by
  have hthere : available e rx > 0 := hav
  rw [Firmware.iterate.eq_def, hf.state]
  simp only [announce, hf.new, hthere, decide_true, hc, if_true, List.singleton_append]

/-- The firmware as it enters a new transfer. -/
theorem enterTransfer_of_new (hstate : f.currentState = .transferBitstream)
    (hnew : f.isNew = true) :
    f.enterTransfer e = ({ f with
      numReceivedBitstreamBytes := 0
      bitstreamStartTime := e.entered
      previousState := .transferBitstream }, [.receiving]) := by
  rw [enterTransfer, if_pos hnew, hstate]

/-- Where the watchdog has not expired, an iteration reads. -/
theorem iterate_of_transfer {g : Firmware} {ms : List Message}
    (hstate : f.currentState = .transferBitstream) (hc : e.connected = true)
    (hg : f.enterTransfer e = (g, ms))
    (hin : ¬(e.checked - g.bitstreamStartTime > watchdogTimeoutUs)) :
    f.iterate e rx = ⟨((g.readBytes e rx).1.checkComplete e).1, (g.readBytes e rx).2,
      ms ++ ((g.readBytes e rx).1.checkComplete e).2⟩ := by
  rw [iterate.eq_def, hstate]
  simp only [transfer, hg, hc, if_true, checkWatchdog, if_neg hin, List.append_nil]

/-- A new transfer is complete at once, where there are bytes enough. -/
theorem iterate_of_enough (hlen : f.bitstream.length = bitstreamSizeLengthBytes)
    (hstate : f.currentState = .transferBitstream) (hnew : f.isNew = true)
    (hc : e.connected = true) (hin : ¬(e.checked - e.entered > watchdogTimeoutUs))
    (hcount : bitstreamSizeLengthBytes ≤ e.count)
    (hav : bitstreamSizeLengthBytes ≤ available e rx) :
    ∃ (g : Firmware) (us : ℤ), f.iterate e rx =
        ⟨g, rx.drop bitstreamSizeLengthBytes, [.receiving, .received us]⟩ ∧
      g.currentState = .flashFpga ∧ g.isNew = true ∧
      g.bitstream = rx.take bitstreamSizeLengthBytes := by
  -- as much is asked for as fits the buffer, and as much is read
  have hread : ∀ g : Firmware, g.bitstream.length = bitstreamSizeLengthBytes →
      g.numReceivedBitstreamBytes = 0 → g.readBytes e rx = ({ g with
        bitstream := rx.take bitstreamSizeLengthBytes
        numReceivedBitstreamBytes := bitstreamSizeLengthBytes },
        rx.drop bitstreamSizeLengthBytes) := by
    intro g hg hzero
    have hask : g.numToRead (available e rx) = bitstreamSizeLengthBytes := by
      rw [numToRead, hzero]
      split <;> omega
    have hthere : available e rx > 0 := Nat.lt_of_lt_of_le size_pos hav
    have hrest : g.bitstream.drop bitstreamSizeLengthBytes = [] :=
      List.drop_of_length_le (Nat.le_of_eq hg)
    rw [readBytes, if_pos hthere, hask, Nat.min_eq_right hcount, hzero]
    simp only [List.take_zero, List.nil_append, Nat.zero_add, hrest, List.append_nil]
  rw [iterate_of_transfer hstate hc (enterTransfer_of_new hstate hnew) hin,
    hread _ (by exact hlen) rfl,
    checkComplete, if_pos (Nat.le_refl _)]
  refine ⟨_, _, rfl, rfl, decide_eq_true fun h => ?_, rfl⟩
  cases hstate.symm.trans h

/-- A new transfer reads the first byte. -/
theorem iterate_of_scarce (hlen : f.bitstream.length = bitstreamSizeLengthBytes)
    (hstate : f.currentState = .transferBitstream) (hnew : f.isNew = true)
    (hc : e.connected = true) (hin : ¬(e.checked - e.entered > watchdogTimeoutUs))
    (hav : available e rx = 1) (hcount : e.count = 1) :
    ∃ g : Firmware, f.iterate e rx = ⟨g, rx.drop 1, [.receiving]⟩ ∧
      g.currentState = .transferBitstream ∧ g.isNew = false ∧
      g.numReceivedBitstreamBytes = 1 ∧ g.bitstreamStartTime = e.entered ∧
      g.bitstream.length = bitstreamSizeLengthBytes := by
  have hroom : (1 : ℕ) < bitstreamSizeLengthBytes := by decide
  obtain ⟨-, -, hlen', -, -⟩ := readBytes_spec (f := { f with
    numReceivedBitstreamBytes := 0
    bitstreamStartTime := e.entered
    previousState := .transferBitstream }) hlen size_pos e rx
  have hask : ∀ g : Firmware, g.numReceivedBitstreamBytes = 0 → g.numToRead 1 = 1 := by
    intro g hzero
    rw [numToRead, hzero, if_neg (by omega)]
  have hread : ∀ g : Firmware, g.numReceivedBitstreamBytes = 0 → g.readBytes e rx = ({ g with
      bitstream := rx.take 1 ++ g.bitstream.drop 1
      numReceivedBitstreamBytes := 1 }, rx.drop 1) := by
    intro g hzero
    rw [readBytes, hav, if_pos Nat.one_pos, hask g hzero, hcount, hzero]
    rfl
  rw [iterate_of_transfer hstate hc (enterTransfer_of_new hstate hnew) hin, hread _ rfl,
    checkComplete, if_neg (Nat.not_le_of_lt hroom)]
  rw [hread _ rfl] at hlen'
  refine ⟨_, rfl, hstate, ?_, rfl, rfl, hlen'⟩
  exact decide_eq_false (not_not.mpr hstate.symm)

/-- The watchdog expires, and nothing is there to be read. -/
theorem iterate_of_late (hlen : f.bitstream.length = bitstreamSizeLengthBytes)
    (hstate : f.currentState = .transferBitstream) (hold : f.isNew = false)
    (hnum : f.numReceivedBitstreamBytes < bitstreamSizeLengthBytes) (hc : e.connected = true)
    (hlate : e.checked - f.bitstreamStartTime > watchdogTimeoutUs) (hav : available e rx = 0) :
    ∃ g : Firmware, f.iterate e rx =
      ⟨g, rx, [.watchdogTimeout f.numReceivedBitstreamBytes]⟩ ∧ g.Waiting := by
  have hread : ∀ g : Firmware, g.readBytes e rx = (g, rx) := fun g => by
    rw [readBytes, hav, if_neg (Nat.lt_irrefl 0)]
  have hpart : ∀ g : Firmware, g.numReceivedBitstreamBytes < bitstreamSizeLengthBytes →
      g.checkComplete e = (g, []) := fun g h => by
    rw [checkComplete, if_neg (Nat.not_le_of_lt h)]
  have hit : f.iterate e rx = ⟨{ f with
      previousState := .transferBitstream
      currentState := .waitForBitstreamTransfer
      bitstreamStartTime := e.restarted }, rx,
        [.watchdogTimeout f.numReceivedBitstreamBytes]⟩ := by
    rw [iterate.eq_def, hstate]
    simp only [transfer, enterTransfer, hold, hc, if_true, checkWatchdog, if_pos hlate, hread,
      Bool.false_eq_true, if_false, hstate]
    rw [hpart _ (by exact hnum)]
    rfl
  exact ⟨_, hit, rfl, rfl, hlen⟩

/-- An iteration with the port connected that takes no time and finds everything
there. -/
def calm : Environment where
  connected := true
  available := bitstreamSizeLengthBytes
  count := bitstreamSizeLengthBytes
  entered := 0
  checked := 0
  restarted := 0
  completed := 0
  times := ⟨0, 0, 0, 0, 0⟩
  pulseCount := 0

/-- An iteration that finds one byte there. -/
def scarce : Environment :=
  { calm with
    available := 1
    count := 1 }

/-- An iteration after the watchdog has expired that finds nothing there. -/
def late : Environment :=
  { calm with
    available := 0
    checked := watchdogTimeoutUs + 1 }

end Firmware

namespace System

/-! ### Scenes -/

/-- What matters of a host with a single bitstream for how it goes on. -/
structure Scene (b : Bitstream) (bytes : List UInt8) (run : Run Count) (queue : List Bitstream)
    (reader : Reader Count) (h : Host Count) : Prop where
  exiting : h.exiting = false
  submitted : h.Submitted b bytes
  file : h.files b.location = some bytes
  run : h.run = run
  queue : h.bitstreamQueue = queue
  reader : h.reader = reader

/-- The part of a system outside the host. -/
structure Outside (firmware : Firmware) (rx : List UInt8) (messages : List Written)
    (s : System) : Prop where
  firmware : s.firmware = firmware
  rx : s.rx = rx
  messages : s.messages = messages

/-- The reader after it has gone through some messages. -/
def heard (ms : List Written) (r : Reader Count) : Reader Count :=
  (ms.flatMap Written.signals).foldl Reader.perform r

@[simp] theorem heard_append (ms ms' : List Written) (r : Reader Count) :
    heard (ms ++ ms') r = heard ms' (heard ms r) := by
  rw [heard, List.flatMap_append, List.foldl_append]
  rfl

variable {b : Bitstream} {bytes : List UInt8} {run : Run Count} {queue : List Bitstream}
  {f : Firmware} {rx : List UInt8} {ms : List Written} {s : System}

/-- A step of the host. -/
theorem reaches_host {i : SystemInput} {j : HostInput Written} {h : Host Count}
    {m : List Written} (hframed : s.Framed i) (hi : s.step i = s.stepHost j m)
    (hstep : s.host.step Written.signals j = some h) (ho : Outside f rx ms s) :
    ∃ t, machine.ReachesBy Framed s t ∧ t.host = h ∧ Outside f (rx ++ s.host.emits j) m t := by
  refine ⟨{ s with
    host := h
    rx := s.rx ++ s.host.emits j
    messages := m }, .head hframed ?_ (.refl _), rfl, ho.firmware, by rw [ho.rx], rfl⟩
  show s.step i = _
  rw [hi, stepHost, hstep]
  rfl

/-- A step of the run thread that writes nothing. -/
theorem reaches_run {h : Host Count} (hstep : s.host.stepRun = some h)
    (hemits : s.host.emits (δ := Written) .run = []) (ho : Outside f rx ms s) :
    ∃ t, machine.ReachesBy Framed s t ∧ t.host = h ∧ Outside f rx ms t := by
  obtain ⟨t, ht, hhost, hout⟩ := reaches_host (i := .run) trivial rfl hstep ho
  rw [hemits, List.append_nil, ho.messages] at hout
  exact ⟨t, ht, hhost, hout⟩

/-- The run thread takes a bitstream from the queue and starts to upload it. -/
theorem Scene.begins (hs : Scene b bytes .loop [b] ⟨true, none, false, .reading⟩ s.host)
    (ho : Outside f rx ms s) (hbytes : 0 < bytes.length) : ∃ t, machine.ReachesBy Framed s t ∧
      Scene b bytes (.upload b bytes 0) [] ⟨false, none, false, .reading⟩ t.host ∧
      Outside f rx ms t := by
  -- the condition of the loop
  obtain ⟨s₁, h₁, hhost₁, ho₁⟩ : ∃ t, machine.ReachesBy Framed s t ∧
      t.host = { s.host with run := .take } ∧ Outside f rx ms t := by
    refine reaches_run ?_ (by rw [Host.emits, hs.run]) ho
    rw [Host.stepRun.eq_def, hs.run]
    simp only [hs.exiting, Bool.false_eq_true, if_false]
  -- the section that takes the bitstream
  obtain ⟨s₂, h₂, hhost₂, ho₂⟩ : ∃ t, machine.ReachesBy Framed s₁ t ∧
      t.host = { s.host with
        bitstreamQueue := []
        run := .read b } ∧ Outside f rx ms t := by
    refine reaches_run ?_ (by rw [Host.emits, hhost₁]) ho₁
    rw [Host.stepRun.eq_def, hhost₁]
    simp only [hs.exiting, hs.queue, Bool.false_eq_true, if_false]
    rfl
  -- the file
  obtain ⟨s₃, h₃, hhost₃, ho₃⟩ : ∃ t, machine.ReachesBy Framed s₂ t ∧
      t.host = { s.host with
        bitstreamQueue := []
        run := .waitUntilReady b bytes } ∧ Outside f rx ms t := by
    refine reaches_run ?_ (by rw [Host.emits, hhost₂]) ho₂
    rw [Host.stepRun.eq_def, hhost₂]
    simp only [hs.file]
  -- the device is ready
  obtain ⟨s₄, h₄, hhost₄, ho₄⟩ : ∃ t, machine.ReachesBy Framed s₃ t ∧
      t.host = { s.host with
        bitstreamQueue := []
        reader := ⟨false, none, false, .reading⟩
        wire := []
        run := .upload b bytes 0 } ∧ Outside f rx ms t := by
    refine reaches_run ?_ (by rw [Host.emits, hhost₃]) ho₃
    rw [Host.stepRun.eq_def, hhost₃]
    simp only [hs.reader, Reader.waitUntilReady, if_true, Option.map_some, Host.uploadFrom,
      if_pos hbytes]
  refine ⟨s₄, ((h₁.trans h₂).trans h₃).trans h₄, ?_, ho₄⟩
  have hsub := hs.submitted
  exact ⟨by rw [hhost₄]; exact hs.exiting, by rw [Host.Submitted, hhost₄]; exact hsub,
    by rw [hhost₄]; exact hs.file, by rw [hhost₄], by rw [hhost₄], by rw [hhost₄]⟩

/-- **An upload completes**: the whole of it is then in the link. -/
theorem Scene.uploads {i : ℕ} {r : Reader Count}
    (hs : Scene b bytes (.upload b bytes i) [] r s.host) (ho : Outside f rx ms s) :
    ∃ t, machine.ReachesBy Framed s t ∧ Scene b bytes (.waitUntilPulse b) [] r t.host ∧
      Outside f (rx ++ bytes.drop i) ms t := by
  -- by induction on what is left to write
  induction hn : bytes.length - i using Nat.strong_induction_on generalizing i s rx with
  | _ n ih =>
    have hemits : s.host.emits (δ := Written) .run = (bytes.drop i).take chunkSize := by
      rw [Host.emits, hs.run]
    have hstep : s.host.stepRun = some (({ s.host with
        wire := s.host.wire ++ (bytes.drop i).take chunkSize } : Host Count).uploadFrom b bytes
          (i + chunkSize)) := by
      rw [Host.stepRun.eq_def, hs.run]
      rfl
    obtain ⟨u, hu, hhost, hout⟩ := reaches_host (i := .run) trivial rfl hstep ho
    rw [hemits, ho.messages] at hout
    by_cases hi : i + chunkSize < bytes.length
    · rw [Host.uploadFrom, if_pos hi] at hhost
      have hscene : Scene b bytes (.upload b bytes (i + chunkSize)) [] r u.host := by
        rw [hhost]
        exact ⟨hs.exiting, hs.submitted, hs.file, rfl, hs.queue, hs.reader⟩
      have hless : bytes.length - (i + chunkSize) < n := by
        rw [← hn, chunkSize]
        omega
      obtain ⟨t, ht, hscene', hout'⟩ := ih _ hless hscene hout rfl
      refine ⟨t, hu.trans ht, hscene', ?_⟩
      have hbytes : rx ++ (bytes.drop i).take chunkSize ++ bytes.drop (i + chunkSize) =
          rx ++ bytes.drop i := by
        rw [List.append_assoc, ← List.drop_drop, List.take_append_drop]
      exact hbytes ▸ hout'
    · rw [Host.uploadFrom, if_neg hi] at hhost
      have hall : (bytes.drop i).take chunkSize = bytes.drop i := by
        rw [List.take_of_length_le]
        rw [List.length_drop]
        omega
      refine ⟨u, hu, ?_, hall ▸ hout⟩
      rw [hhost]
      exact ⟨hs.exiting, hs.submitted, hs.file, rfl, hs.queue, hs.reader⟩

/-- The reader goes through the sections for what it has read. -/
theorem Scene.performs {l : List (Signal Count)} {r : Reader Count} (hthread : r.thread = .reading)
    (hexit : r.exiting = false)
    (hs : Scene b bytes run queue { r with thread := .signalling l } s.host)
    (ho : Outside f rx ms s) : ∃ t, machine.ReachesBy Framed s t ∧
      Scene b bytes run queue (l.foldl Reader.perform r) t.host ∧ Outside f rx ms t := by
  induction l generalizing s r with
  | nil =>
    have hstep : s.host.step Written.signals .read = some { s.host with reader := r } := by
      rw [Host.step, hs.reader, Reader.step_nil hthread hexit]
      rfl
    obtain ⟨t, ht, hhost, hout⟩ := reaches_host (i := .read) trivial rfl hstep ho
    rw [Host.emits, List.append_nil, ho.messages] at hout
    refine ⟨t, ht, ?_, hout⟩
    rw [hhost]
    exact ⟨hs.exiting, hs.submitted, hs.file, hs.run, hs.queue, rfl⟩
  | cons x l ih =>
    have hstep : s.host.step Written.signals .read = some { s.host with
        reader := { r.perform x with thread := .signalling l } } := by
      simp [Host.step, hs.reader]
    obtain ⟨u, hu, hhost, hout⟩ := reaches_host (i := .read) trivial rfl hstep ho
    rw [Host.emits, List.append_nil, ho.messages] at hout
    have hscene : Scene b bytes run queue { r.perform x with thread := .signalling l } u.host := by
      rw [hhost]
      exact ⟨hs.exiting, hs.submitted, hs.file, hs.run, hs.queue, rfl⟩
    obtain ⟨t, ht, hscene', hout'⟩ := ih ((Reader.thread_perform r x).trans hthread)
      ((Reader.exiting_perform r x).trans hexit) hscene hout
    exact ⟨t, hu.trans ht, hscene', hout'⟩

/-- A fold of sections leaves the reader reading. -/
@[simp] theorem foldl_perform (l : List (Signal Count)) (r : Reader Count) :
    (l.foldl Reader.perform r).thread = r.thread ∧
      (l.foldl Reader.perform r).exiting = r.exiting := by
  induction l generalizing r with
  | nil => exact ⟨rfl, rfl⟩
  | cons x l ih =>
    rw [List.foldl_cons, (ih _).1, (ih _).2]
    exact ⟨Reader.thread_perform r x, Reader.exiting_perform r x⟩

/-- **The messages are read**, each as a whole. -/
theorem Scene.delivers {r : Reader Count} (hthread : r.thread = .reading)
    (hexit : r.exiting = false) (hs : Scene b bytes run queue r s.host) (ho : Outside f rx ms s) :
    ∃ t, machine.ReachesBy Framed s t ∧ Scene b bytes run queue (heard ms r) t.host ∧
      Outside f rx [] t := by
  induction ms generalizing s r with
  | nil => exact ⟨s, .refl s, hs, ho⟩
  | cons w ms ih =>
    have hi : s.step .deliver = s.stepHost (.receive w) ms := by rw [System.step, ho.messages]
    have hreceive : r.receive (Written.signals w) =
        some { r with thread := .signalling (Written.signals w) } := by
      rw [Reader.receive, hthread]
    have hstep : s.host.step Written.signals (.receive w) = some { s.host with
        reader := { r with thread := .signalling (Written.signals w) }
        history :=
          { s.host.history with
            answers := s.host.history.answers ++ answers (Written.signals w) } } := by
      rw [Host.step, hs.reader, hreceive]
      rfl
    obtain ⟨u, hu, hhost, hout⟩ := reaches_host (i := .deliver) trivial hi hstep ho
    rw [Host.emits, List.append_nil] at hout
    have hscene : Scene b bytes run queue
        { r with thread := .signalling (Written.signals w) } u.host := by
      rw [hhost]
      exact ⟨hs.exiting, hs.submitted, hs.file, hs.run, hs.queue, rfl⟩
    obtain ⟨v, hv, hscene', hout'⟩ := hscene.performs hthread hexit hout
    obtain ⟨hthread', hexit'⟩ := foldl_perform (Written.signals w) r
    obtain ⟨t, ht, hscene'', hout''⟩ :=
      ih (hthread'.trans hthread) (hexit'.trans hexit) hscene' hout'
    refine ⟨t, (hu.trans hv).trans ht, ?_, hout''⟩
    rw [heard, List.flatMap_cons, List.foldl_append]
    exact hscene''

/-- A count is judged and stored. -/
theorem Scene.stores {v : Count} {ready : Bool} (hs : Scene b bytes (.waitUntilPulse b) queue
    ⟨ready, some (.pulses v), false, .reading⟩ s.host) (ho : Outside f rx ms s) :
    ∃ t, machine.ReachesBy Framed s t ∧ (b, some v) ∈ t.host.history.stored ∧
      t.host.Submitted b bytes := by
  obtain ⟨s₁, h₁, hhost₁, ho₁⟩ : ∃ t, machine.ReachesBy Framed s t ∧
      t.host = { s.host with
        reader := ⟨ready, none, false, .reading⟩
        run := .judge b (some (.pulses v)) } ∧ Outside f rx ms t := by
    refine reaches_run ?_ (by rw [Host.emits, hs.run]) ho
    rw [Host.stepRun.eq_def, hs.run]
    simp only [hs.reader, Reader.waitUntilPulse, Option.isSome_some, Bool.true_or, if_true,
      Option.map_some]
  obtain ⟨s₂, h₂, hhost₂, -⟩ : ∃ t, machine.ReachesBy Framed s₁ t ∧
      t.host = ({ s.host with
        reader := ⟨ready, none, false, .reading⟩
        run := .judge b (some (.pulses v)) } : Host Count).store b (some v) ∧
      Outside f rx ms t := by
    refine reaches_run ?_ (by rw [Host.emits, hhost₁]) ho₁
    rw [hhost₁]
    rfl
  refine ⟨s₂, h₁.trans h₂, ?_, ?_⟩
  · rw [hhost₂]
    exact List.mem_append_right _ List.mem_cons_self
  · rw [Host.Submitted, hhost₂]
    exact hs.submitted

/-- A timeout is judged, and the bitstream queued again. -/
theorem Scene.retries (hs : Scene b bytes (.waitUntilPulse b) []
    ⟨true, some .timeout, false, .reading⟩ s.host) (ho : Outside f rx ms s) :
    ∃ t, machine.ReachesBy Framed s t ∧
      Scene b bytes .loop [b] ⟨true, none, false, .reading⟩ t.host ∧ Outside f rx ms t := by
  obtain ⟨s₁, h₁, hhost₁, ho₁⟩ : ∃ t, machine.ReachesBy Framed s t ∧
      t.host = { s.host with
        reader := ⟨true, none, false, .reading⟩
        run := .judge b (some .timeout) } ∧ Outside f rx ms t := by
    refine reaches_run ?_ (by rw [Host.emits, hs.run]) ho
    rw [Host.stepRun.eq_def, hs.run]
    simp only [hs.reader, Reader.waitUntilPulse, Option.isSome_some, Bool.true_or, if_true,
      Option.map_some]
  obtain ⟨s₂, h₂, hhost₂, ho₂⟩ : ∃ t, machine.ReachesBy Framed s₁ t ∧
      t.host = { s.host with
        reader := ⟨true, none, false, .reading⟩
        bitstreamQueue := s.host.bitstreamQueue ++ [b]
        run := .loop } ∧ Outside f rx ms t := by
    refine reaches_run ?_ (by rw [Host.emits, hhost₁]) ho₁
    rw [hhost₁]
    rfl
  refine ⟨s₂, h₁.trans h₂, ?_, ho₂⟩
  rw [hhost₂]
  exact ⟨hs.exiting, hs.submitted, hs.file, rfl, by rw [hs.queue]; rfl, rfl⟩

/-! ### The firmware in the system -/

/-- An iteration of the firmware. -/
theorem reaches_firmware {c : System → SystemInput → Prop} {e : Environment} {r : Iteration}
    (hcond : c s (.firmware e)) (hc : e.connected = true) (hr : f.iterate e rx = r)
    (ho : Outside f rx ms s) : ∃ t, machine.ReachesBy c s t ∧ t.host = s.host ∧
      Outside r.firmware r.rx (ms ++ r.messages.map fun m => ⟨m, f⟩) t := by
  refine ⟨s.stepFirmware e, .head hcond (if_pos hc) (.refl _), rfl, ?_, ?_, ?_⟩
  · rw [stepFirmware, ho.firmware, ho.rx, hr]
  · rw [stepFirmware, ho.firmware, ho.rx, hr]
  · rw [stepFirmware, ho.firmware, ho.rx, ho.messages, hr]

/-- What the signals of a message do to the reader. -/
@[simp] theorem heard_cons (w : Written) (ms : List Written) (r : Reader Count) :
    heard (w :: ms) r = heard ms
      ((w.message.signals.map (Signal.map fun digits => ⟨digits, w⟩)).foldl Reader.perform r) := by
  simp [heard, Written.signals]

/-- After a reset the firmware waits, and has sent nothing that matters. -/
theorem connects (ho : Outside .boot rx [] s) : ∃ t g ws, machine.ReachesBy Framed s t ∧
    t.host = s.host ∧ Outside g rx ws t ∧ g.Waiting ∧ ∀ r, heard ws r = r := by
  have hcalm : ∀ (u : System) (g : Firmware), u.firmware = g → g.busy = false →
      u.Framed (.firmware Firmware.calm) := by
    rintro u g rfl hbusy ha
    rw [Firmware.busy_of_answers ha] at hbusy
    cases hbusy
  obtain ⟨s₁, h₁, hhost₁, ho₁⟩ := reaches_firmware (e := Firmware.calm)
    (hcalm s _ ho.firmware rfl) rfl rfl ho
  obtain ⟨s₂, h₂, hhost₂, ho₂⟩ := reaches_firmware (e := Firmware.calm)
    (hcalm s₁ _ ho₁.firmware rfl) rfl rfl ho₁
  obtain ⟨s₃, h₃, hhost₃, ho₃⟩ := reaches_firmware (e := Firmware.calm)
    (hcalm s₂ _ ho₂.firmware rfl) rfl rfl ho₂
  refine ⟨s₃, _, _, (h₁.trans h₂).trans h₃, (hhost₃.trans hhost₂).trans hhost₁, ho₃,
    ⟨rfl, rfl, List.length_replicate⟩, fun r => ?_⟩
  exact heard_cons _ _ r

/-- **A transfer is flashed**: the buffer takes what is next in the link, and the
count is taken of it. -/
theorem flashes {c : System → SystemInput → Prop} (hf : f.Waiting)
    (hrx : bitstreamSizeLengthBytes ≤ rx.length)
    (hcond : ∀ u e, (u.firmware.answers e = true →
      u.rx = rx.drop bitstreamSizeLengthBytes ∧ u.host = s.host) → c u (.firmware e))
    (ho : Outside f rx ms s) : ∃ t g ws v, machine.ReachesBy c s t ∧ t.host = s.host ∧
      Outside g (rx.drop bitstreamSizeLengthBytes) (ms ++ ws) t ∧
      v.FlashedFrom (rx.take bitstreamSizeLengthBytes) ∧
      ∀ r, heard ws r = { r with
        ready := true
        lastPulse := some (.pulses v) } := by
  have hav : bitstreamSizeLengthBytes ≤ Firmware.available Firmware.calm rx :=
    Nat.le_min.mpr ⟨Nat.le_refl _, hrx⟩
  -- it starts
  have hidle : ¬(f.answers Firmware.calm = true) := by
    rw [Firmware.answers, hf.state]
    exact Bool.false_ne_true
  obtain ⟨s₁, h₁, hhost₁, ho₁⟩ := reaches_firmware (c := c)
    (hcond s _ fun ha => absurd (ho.firmware ▸ ha) hidle) rfl
    (hf.iterate rfl (Nat.lt_of_lt_of_le Firmware.size_pos hav)) ho
  -- it is complete
  obtain ⟨g, us, hg, hstate, hnew, hbuf⟩ := Firmware.iterate_of_enough (f := { f with
    previousState := .waitForBitstreamTransfer
    currentState := .transferBitstream }) (e := Firmware.calm) hf.length rfl rfl rfl (by decide)
    (Nat.le_refl _) hav
  have hearly : ¬(s₁.firmware.answers Firmware.calm = true) := by
    rw [ho₁.firmware]
    exact Bool.false_ne_true
  obtain ⟨s₂, h₂, hhost₂, ho₂⟩ := reaches_firmware (c := c)
    (hcond s₁ _ fun ha => absurd ha hearly) rfl hg ho₁
  -- it is flashed
  have hflash : g.iterate Firmware.calm (rx.drop bitstreamSizeLengthBytes) = ⟨{ g with
      previousState := .flashFpga
      currentState := .idle }, rx.drop bitstreamSizeLengthBytes,
      [.flashing, .pulses Firmware.calm.times 0]⟩ := by
    rw [Firmware.iterate.eq_def, hstate]
    simp only [Firmware.announce, hnew, if_true]
    rfl
  obtain ⟨s₃, h₃, hhost₃, ho₃⟩ := reaches_firmware (c := c)
    (hcond s₂ _ fun _ => ⟨ho₂.rx, hhost₂.trans hhost₁⟩) rfl hflash ho₂
  rw [List.append_assoc, List.append_assoc] at ho₃
  have hdigits : searchPulses (Message.pulses Firmware.calm.times 0).text = some ['0'] := by decide
  refine ⟨s₃, _, _, ⟨['0'], ⟨.pulses Firmware.calm.times 0, g⟩⟩, (h₁.trans h₂).trans h₃,
    (hhost₃.trans hhost₂).trans hhost₁, ho₃, ⟨hstate, hbuf, ⟨_, _, rfl⟩, hdigits⟩, fun r => ?_⟩
  show heard [⟨.waiting, f⟩, ⟨.transferStarted, f⟩, ⟨.receiving, _⟩, ⟨.received us, _⟩,
    ⟨.flashing, g⟩, ⟨.pulses Firmware.calm.times 0, g⟩] r = _
  iterate 6 rw [heard_cons]
  rw [show (Message.pulses Firmware.calm.times 0).signals = [.pulses ['0']] by
    rw [Message.signals, hdigits]; rfl]
  rfl

/-- **The watchdog expires after one byte**: the rest stays in the link. -/
theorem expires (hf : f.Waiting) (hrx : 0 < rx.length) (ho : Outside f rx ms s) :
    ∃ t g ws, machine.ReachesBy (fun _ _ => True) s t ∧ t.host = s.host ∧
      Outside g (rx.drop 1) (ms ++ ws) t ∧ g.Waiting ∧
      ∀ r, heard ws r = { r with
        ready := true
        lastPulse := some .timeout } := by
  have hav : Firmware.available Firmware.scarce rx = 1 := Nat.min_eq_left hrx
  obtain ⟨s₁, h₁, hhost₁, ho₁⟩ := reaches_firmware (c := fun _ _ => True)
    (e := Firmware.scarce) trivial rfl (hf.iterate rfl (by rw [hav]; exact Nat.one_pos)) ho
  obtain ⟨g, hg, hstate, hold, hnum, hstart, hlen⟩ := Firmware.iterate_of_scarce (f := { f with
    previousState := .waitForBitstreamTransfer
    currentState := .transferBitstream }) (e := Firmware.scarce) hf.length rfl rfl rfl (by decide)
    hav rfl
  obtain ⟨s₂, h₂, hhost₂, ho₂⟩ := reaches_firmware (c := fun _ _ => True)
    (e := Firmware.scarce) trivial rfl hg ho₁
  have hexpired : Firmware.late.checked - g.bitstreamStartTime > watchdogTimeoutUs := by
    rw [hstart]
    decide
  obtain ⟨g', hg', hwaiting⟩ := Firmware.iterate_of_late (e := Firmware.late)
    hlen hstate hold (by rw [hnum]; decide) rfl hexpired (Nat.zero_min (rx.drop 1).length)
  obtain ⟨s₃, h₃, hhost₃, ho₃⟩ := reaches_firmware (c := fun _ _ => True)
    (e := Firmware.late) trivial rfl hg' ho₂
  rw [List.append_assoc, List.append_assoc] at ho₃
  refine ⟨s₃, g', _, (h₁.trans h₂).trans h₃, (hhost₃.trans hhost₂).trans hhost₁, ho₃, hwaiting,
    fun r => ?_⟩
  show heard [⟨.waiting, f⟩, ⟨.transferStarted, f⟩, ⟨.receiving, _⟩, ⟨.watchdogTimeout _, g⟩] r = _
  iterate 4 rw [heard_cons]
  rfl

/-! ### Two families of runs -/

/-- A bitstream is queued at a new system. -/
theorem queues (bytes : List UInt8) : ∃ t b, machine.ReachesBy Framed start t ∧
    Scene b bytes .loop [b] ⟨true, none, false, .reading⟩ t.host ∧ Outside .boot [] [] t := by
  let files : Files := ⟨[("a", Cp437.decode bytes)], List.nodup_singleton _⟩
  have hencode : Cp437.encode (Cp437.decode bytes) = some bytes := Cp437.encode_decode bytes
  obtain ⟨s₁, h₁, hhost₁, ho₁⟩ := reaches_host (s := start) (i := .request [0] files)
    (m := []) trivial rfl (h := { Host.start with
      calls := [⟨[0], files, 0⟩]
      history :=
        { Host.start.history with
          requested := ["a"]
          issued := [0] } }) rfl ⟨rfl, rfl, rfl⟩
  obtain ⟨s₂, h₂, hhost₂, ho₂⟩ := reaches_host (s := s₁) (i := .queue 0) (j := .queue 0)
    (m := []) trivial (by rw [System.step, ho₁.messages]) (h := { Host.start with
      files := Function.update (fun _ => none) 0 (some bytes)
      calls := [⟨[0], files, 1⟩]
      history :=
        { Host.start.history with
          requested := ["a"]
          issued := [0] } }) (by
        rw [hhost₁]
        show some (Host.stepCall _ 0 ⟨[0], files, 0⟩) = _
        have hfirst : (⟨[0], files, 0⟩ : Call).contents[0]? = some (0, Cp437.decode bytes) := rfl
        rw [Host.stepCall, hfirst]
        simp only [hencode]
        rfl) ho₁
  obtain ⟨s₃, h₃, hhost₃, ho₃⟩ := reaches_host (s := s₂) (i := .queue 0) (j := .queue 0)
    (m := []) trivial (by rw [System.step, ho₂.messages]) (h := { Host.start with
      bitstreamQueue := [⟨0, "a"⟩]
      files := Function.update (fun _ => none) 0 (some bytes)
      history :=
        { Host.start.history with
          requested := ["a"]
          issued := [0]
          submitted := [(⟨0, "a"⟩, Cp437.decode bytes)] } }) (by
        rw [hhost₂]
        rfl) ho₂
  refine ⟨s₃, ⟨0, "a"⟩, (h₁.trans h₂).trans h₃, ?_, ho₃⟩
  have hfile : Function.update (fun _ : ℕ => (none : Option (List UInt8))) 0 (some bytes) 0 =
      some bytes := Function.update_self _ _ _
  rw [hhost₃]
  exact ⟨rfl, ⟨_, List.mem_cons_self, hencode⟩, hfile, rfl, rfl, rfl⟩

/-- The whole first upload reaches the firmware while it waits for one. -/
theorem exists_uploaded {bytes : List UInt8} (hpos : 0 < bytes.length) :
    ∃ t b f ws, machine.ReachesBy Framed start t ∧
      Scene b bytes (.waitUntilPulse b) [] ⟨false, none, false, .reading⟩ t.host ∧
      Outside f bytes ws t ∧ f.Waiting ∧ ∀ r, heard ws r = r := by
  obtain ⟨s₁, b, h₁, hs₁, ho₁⟩ := queues bytes
  obtain ⟨s₂, h₂, hs₂, ho₂⟩ := hs₁.begins ho₁ hpos
  obtain ⟨s₃, h₃, hs₃, ho₃⟩ := hs₂.uploads ho₂
  rw [List.drop_zero, List.nil_append] at ho₃
  obtain ⟨t, f, ws, h₄, hhost, ho₄, hf, hws⟩ := connects ho₃
  refine ⟨t, b, f, ws, ((h₁.trans h₂).trans h₃).trans h₄, ?_, ho₄, hf, hws⟩
  rw [hhost]
  exact hs₃

/-- **Every bitstream can be counted**: in a framed run the firmware reads the
whole upload, flashes it, and the count is stored. -/
theorem exists_stored {bytes : List UInt8} (hlen : bytes.length = bitstreamSizeLengthBytes) :
    ∃ t b v, machine.ReachesBy Framed start t ∧ (b, some v) ∈ t.host.history.stored ∧
      t.host.Submitted b bytes := by
  have hpos : 0 < bytes.length := by
    rw [hlen]
    exact Firmware.size_pos
  obtain ⟨s₁, b, f, ws, h₁, hs₁, ho₁, hf, hws⟩ := exists_uploaded hpos
  -- nothing is left of the upload
  obtain ⟨s₂, g, ws', v, h₂, hhost₂, ho₂, -, hws'⟩ := flashes (c := Framed) hf
    (Nat.le_of_eq hlen.symm) (fun u e h ha => by
      obtain ⟨hrx, hhost⟩ := h ha
      refine ⟨?_, ?_⟩
      · rw [hrx, List.drop_of_length_le (Nat.le_of_eq hlen)]
      · rw [uploading, hhost, hs₁.run]
        rfl) ho₁
  have hs₂ : Scene b bytes (.waitUntilPulse b) [] ⟨false, none, false, .reading⟩ s₂.host := by
    rw [hhost₂]
    exact hs₁
  obtain ⟨s₃, h₃, hs₃, ho₃⟩ := hs₂.delivers rfl rfl ho₂
  rw [heard_append, hws, hws'] at hs₃
  obtain ⟨t, h₄, hstored, hsub⟩ := hs₃.stores ho₃
  exact ⟨t, b, v, ((h₁.trans h₂).trans h₃).trans h₄, hstored, hsub⟩

/-- **Every bitstream can be counted wrongly**: where the watchdog expires after
one byte, what is flashed and stored for a bitstream is the rest of its first
upload and the first byte of the second. -/
theorem exists_rotated {bytes : List UInt8} (hlen : bytes.length = bitstreamSizeLengthBytes) :
    ∃ t b v, machine.Reaches start t ∧ (b, some v) ∈ t.host.history.stored ∧
      t.host.Submitted b bytes ∧ v.FlashedFrom (bytes.drop 1 ++ bytes.take 1) := by
  have hpos : 0 < bytes.length := by
    rw [hlen]
    exact Firmware.size_pos
  have hany : ∀ {s t : System}, machine.ReachesBy Framed s t →
      machine.ReachesBy (fun _ _ => True) s t := fun h => h.mono fun _ _ _ => trivial
  -- the first upload, of which the firmware reads one byte in time
  obtain ⟨s₁, b, f, ws, h₁, hs₁, ho₁, hf, hws⟩ := exists_uploaded hpos
  obtain ⟨s₂, g, ws', h₂, hhost₂, ho₂, hg, hws'⟩ := expires hf hpos ho₁
  have hs₂ : Scene b bytes (.waitUntilPulse b) [] ⟨false, none, false, .reading⟩ s₂.host := by
    rw [hhost₂]
    exact hs₁
  obtain ⟨s₃, h₃, hs₃, ho₃⟩ := hs₂.delivers rfl rfl ho₂
  rw [heard_append, hws, hws'] at hs₃
  -- the second upload follows what is left of the first
  obtain ⟨s₄, h₄, hs₄, ho₄⟩ := hs₃.retries ho₃
  obtain ⟨s₅, h₅, hs₅, ho₅⟩ := hs₄.begins ho₄ hpos
  obtain ⟨s₆, h₆, hs₆, ho₆⟩ := hs₅.uploads ho₅
  rw [List.drop_zero] at ho₆
  have hrest : (bytes.drop 1).length = bitstreamSizeLengthBytes - 1 := by
    rw [List.length_drop, hlen]
  have henough : bitstreamSizeLengthBytes ≤ (bytes.drop 1 ++ bytes).length := by
    rw [List.length_append, hlen]
    exact Nat.le_add_left _ _
  obtain ⟨s₇, g', ws'', v, h₇, hhost₇, ho₇, hv, hws''⟩ := flashes
    (c := fun _ _ => True) hg henough (fun _ _ _ => trivial) ho₆
  have hs₇ : Scene b bytes (.waitUntilPulse b) [] ⟨false, none, false, .reading⟩ s₇.host := by
    rw [hhost₇]
    exact hs₆
  obtain ⟨s₈, h₈, hs₈, ho₈⟩ := hs₇.delivers rfl rfl ho₇
  rw [List.nil_append, hws''] at hs₈
  obtain ⟨t, h₉, hstored, hsub⟩ := hs₈.stores ho₈
  have hall := (((((((hany h₁).trans h₂).trans (hany h₃)).trans (hany h₄)).trans
    (hany h₅)).trans (hany h₆)).trans h₇).trans (hany h₈) |>.trans (hany h₉)
  obtain ⟨is, his, -⟩ := hall
  refine ⟨t, b, v, ⟨is, his⟩, hstored, hsub, ?_⟩
  have htake : (bytes.drop 1 ++ bytes).take bitstreamSizeLengthBytes =
      bytes.drop 1 ++ bytes.take 1 := by
    have hone : bitstreamSizeLengthBytes - (bitstreamSizeLengthBytes - 1) = 1 :=
      Nat.sub_sub_self Firmware.size_pos
    rw [List.take_append, hrest, hone, List.take_of_length_le (by rw [hrest]; omega)]
  rw [← htake]
  exact hv

/-! ### The count and its bitstream -/

/-- **Where the firmware answers only when nothing is left of an upload, no count
is given to the wrong bitstream.** Along every run whose steps are framed,
whenever the run thread has stored a count for a bitstream, and the bytes
submitted with it are as many as a bitstream has, the message with the count was
written by a `FLASH_FPGA` step whose buffer held exactly these bytes. -/
theorem stored_flashedFrom {t : System} {is : List SystemInput}
    (hm : machine.Meets Framed start is) (h : machine.run start is = some t) :
    ∀ b v bytes, (b, some v) ∈ t.host.history.stored → t.host.Submitted b bytes →
      bytes.length = bitstreamSizeLengthBytes → v.FlashedFrom bytes := by
  have hinv : t.Inv := Machine.invariant_of_meets (I := Inv)
    (fun _ _ _ hs hframed hstep => inv_step hs hframed hstep) inv_start hm h
  intro b v bytes hv hbytes _
  obtain ⟨data, hdata, hflashed⟩ := hinv.stored b v hv
  exact hinv.filed.unique hdata hbytes ▸ hflashed

/-- The bitstream of zeros is counted. -/
theorem zeros_flashedFrom : ∃ t b v, machine.ReachesBy Framed start t ∧
    (b, some v) ∈ t.host.history.stored ∧
    t.host.Submitted b (List.replicate bitstreamSizeLengthBytes 0) ∧
    v.FlashedFrom (List.replicate bitstreamSizeLengthBytes 0) := by
  obtain ⟨t, b, v, ⟨is, his, hm⟩, hstored, hsub⟩ :=
    exists_stored (List.length_replicate (a := (0 : UInt8)))
  exact ⟨t, b, v, ⟨is, his, hm⟩, hstored, hsub,
    stored_flashedFrom hm his b v _ hstored hsub List.length_replicate⟩

/-- Without the condition, a count may be stored that is not of the bitstream:
one followed by zeros is flashed as zeros followed by one. -/
theorem lateRead_misattributed : ¬∀ is t, machine.run start is = some t → ∀ b v bytes,
    (b, some v) ∈ t.host.history.stored → t.host.Submitted b bytes →
    bytes.length = bitstreamSizeLengthBytes → v.FlashedFrom bytes := by
  intro hall
  have hlen : (1 :: List.replicate (bitstreamSizeLengthBytes - 1) (0 : UInt8)).length =
      bitstreamSizeLengthBytes := by
    rw [List.length_cons, List.length_replicate]
    exact Nat.sub_add_cancel Firmware.size_pos
  obtain ⟨t, b, v, ⟨is, his⟩, hstored, hsub, hflashed⟩ := exists_rotated hlen
  have hright := hall is t his b v _ hstored hsub hlen
  have heq := hflashed.bitstream.symm.trans hright.bitstream
  rw [List.drop_one, List.tail_cons] at heq
  -- the first byte of what was flashed is a zero
  have hzero : (0 : UInt8) = 1 := by
    have hhead := congrArg List.head? heq
    rw [List.head?_append, List.head?_replicate, if_neg (by decide)] at hhead
    exact Option.some.inj hhead
  exact absurd hzero (by decide)

end System

end UsbipIce.PulseCount
