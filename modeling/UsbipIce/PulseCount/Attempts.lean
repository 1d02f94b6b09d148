import Mathlib.Data.List.Count
import UsbipIce.Lib.Since
import UsbipIce.PulseCount.Loop

/-!
# What becomes of a transfer

A transfer that is entered times out, is flashed and counted, or is given up
where the port is disconnected. The host takes one answer for each of its
uploads, so one of these is to happen before the next transfer is entered, and
not two.

The watchdog, the read and the check for completeness follow one another in one
iteration, and the watchdog does not end it: where it has expired while the bytes
read complete the transfer, the attempt is reported as timed out, and is flashed
and counted nevertheless (`UsbipIce.PulseCount.Loop.Double`). This is the only
way to two outcomes (`UsbipIce.PulseCount.Loop.oneOutcome_iff`), apart from a
disconnect after the attempt has ended, which may be counted with it or not.
-/

namespace UsbipIce.PulseCount

open Lib

/-! ### The events of an attempt -/

namespace LoopEvent

/-- A transfer is entered. -/
def isEntry : LoopEvent → Bool
  | .move _ .transferBitstream => true
  | _ => false

/-- The attempt is reported as timed out. -/
def isTimeout : LoopEvent → Bool
  | .message (.watchdogTimeout _) => true
  | _ => false

/-- The array is flashed, or the count is written. -/
def isCounted : LoopEvent → Bool
  | .flashed _ => true
  | .message (.pulses ..) => true
  | _ => false

/-- An outcome: a timeout, a count, or a disconnect. Whether the disconnects count
that are noticed outside a transfer is left open. -/
def isOutcome (wide : Bool) : LoopEvent → Bool
  | .message (.watchdogTimeout _) => true
  | .message (.pulses ..) => true
  | .move old .usbDisconnected => wide || decide (old = .transferBitstream)
  | _ => false

/-- An event that neither begins nor ends anything. -/
structure Plain (e : LoopEvent) : Prop where
  outcome : ∀ wide, e.isOutcome wide = false
  timeout : e.isTimeout = false
  counted : e.isCounted = false
  entry : e.isEntry = false

end LoopEvent

/-- **One outcome**: the events of an attempt have one outcome at most, and it is not
flashed and counted where it is reported as timed out. -/
structure OneOutcome (wide : Bool) (es : List LoopEvent) : Prop where
  one : es.countP (LoopEvent.isOutcome wide) ≤ 1
  honest : es.any LoopEvent.isTimeout = true → es.any LoopEvent.isCounted = false

theorem OneOutcome.mono {wide : Bool} (l l' : List LoopEvent) (h : OneOutcome wide (l ++ l')) :
    OneOutcome wide l where
  one := by
    have hone := h.one
    rw [List.countP_append] at hone
    omega
  honest ht := by
    have hhonest := h.honest
    rw [List.any_append, List.any_append, ht, Bool.true_or, Bool.or_eq_false_iff] at hhonest
    exact (hhonest rfl).1

namespace Loop

variable {f f' : Loop} {i : LoopInput} {es : List LoopEvent}

/-- The events neither begin nor end anything. -/
def Plain (es : List LoopEvent) : Prop := ∀ e ∈ es, e.Plain

theorem Plain.append {es es' : List LoopEvent} (h : Plain es) (h' : Plain es') :
    Plain (es ++ es') :=
  fun e he => (List.mem_append.mp he).elim (h e) (h' e)

theorem Plain.entry (h : Plain es) : ∀ e ∈ es, e.isEntry = false := fun e he => (h e he).entry

/-- The outcomes of some events, and what is reported of them. -/
structure Marked (wide : Bool) (es : List LoopEvent) (n : ℕ) (timeout counted : Bool) : Prop where
  outcomes : es.countP (LoopEvent.isOutcome wide) = n
  timeout : es.any LoopEvent.isTimeout = timeout
  counted : es.any LoopEvent.isCounted = counted

theorem Marked.append {wide : Bool} {es es' : List LoopEvent} {n n' : ℕ} {t t' c c' : Bool}
    (h : Marked wide es n t c) (h' : Marked wide es' n' t' c') :
    Marked wide (es ++ es') (n + n') (t || t') (c || c') where
  outcomes := by rw [List.countP_append, h.outcomes, h'.outcomes]
  timeout := by rw [List.any_append, h.timeout, h'.timeout]
  counted := by rw [List.any_append, h.counted, h'.counted]

theorem Plain.marked (h : Plain es) (wide : Bool) : Marked wide es 0 false false where
  outcomes := List.countP_eq_zero.mpr fun e he => by
    rw [(h e he).outcome]
    exact Bool.false_ne_true
  timeout := List.any_eq_false.mpr fun e he => by
    rw [(h e he).timeout]
    exact Bool.false_ne_true
  counted := List.any_eq_false.mpr fun e he => by
    rw [(h e he).counted]
    exact Bool.false_ne_true

/-- Where nothing has ended yet. -/
theorem Marked.oneOutcome_zero {wide : Bool} {es : List LoopEvent} {c : Bool}
    (h : Marked wide es 0 false c) : OneOutcome wide es where
  one := h.outcomes ▸ Nat.zero_le 1
  honest ht := absurd (h.timeout.symm.trans ht) Bool.false_ne_true

theorem Marked.oneOutcome {wide : Bool} {es : List LoopEvent} {n : ℕ} {t c : Bool}
    (h : Marked wide es n t c) (hn : n ≤ 1) (htc : t = true → c = false) :
    OneOutcome wide es where
  one := h.outcomes ▸ hn
  honest ht := by rw [h.counted, htc (h.timeout ▸ ht)]

/-! ### What an iteration does to the attempt under way -/

/-- **Two outcomes begin**: the watchdog has expired, and the bytes read in the
same iteration complete the transfer. -/
def Double (f : Loop) (i : LoopInput) : Prop :=
  f.currentState = .transferBitstream ∧ i.connected = true ∧
    (f.enterTransfer i).1.expired i = true ∧
    bitstreamSizeLengthBytes ≤ (f.enterTransfer i).1.numReceivedBitstreamBytes.toNat +
      ((f.enterTransfer i).1.bytesRead i).length

/-- What an iteration does to the attempt under way. -/
inductive Pass (f : Loop) (i : LoopInput) (f' : Loop) (es : List LoopEvent) : Prop where
  | outside (old : f.busy = false) (new : f'.busy = false) (plain : Plain es)
  /-- The port is disconnected while the firmware waits. -/
  | lost (pre : List LoopEvent) (old : f.currentState = .waitForBitstreamTransfer)
      (disconnected : i.connected = false) (new : f'.busy = false)
      (events : es = pre ++ [.move .waitForBitstreamTransfer .usbDisconnected])
      (plain : Plain pre)
  | enters (pre : List LoopEvent) (old : f.busy = false) (new : f'.busy = true)
      (events : es = pre ++ [.move .waitForBitstreamTransfer .transferBitstream])
      (plain : Plain pre)
  | goesOn (old : f.currentState = .transferBitstream) (single : ¬Double f i) (new : f'.busy = true)
      (plain : Plain es)
  /-- The attempt times out, or is given up. -/
  | ends (pre : List LoopEvent) (e : LoopEvent) (post : List LoopEvent)
      (old : f.currentState = .transferBitstream) (single : ¬Double f i) (new : f'.busy = false)
      (events : es = pre ++ e :: post)
      (before : Plain pre) (after : Plain post) (outcome : ∀ wide, e.isOutcome wide = true)
      (counted : e.isCounted = false) (entry : e.isEntry = false)
  | double (double : Double f i) (new : f'.currentState = .flashFpga)
      (entries : ∀ e ∈ es, e.isEntry = false) (timeout : es.any LoopEvent.isTimeout = true)
  | counts (pre : List LoopEvent) (old : f.currentState = .flashFpga) (new : f'.busy = false)
      (events : es = pre ++ [.flashed f.bitstream, .message (.pulses i.times i.pulseCount),
        .move .flashFpga .idle])
      (plain : Plain pre)

theorem plain_nil : Plain [] := fun _ he => absurd he List.not_mem_nil

theorem plain_singleton {e : LoopEvent} (h : e.Plain) : Plain [e] :=
  fun e' he' => by rw [List.mem_singleton.mp he']; exact h

theorem plain_connected (c : Bool) : LoopEvent.Plain (.connected c) :=
  ⟨fun _ => rfl, rfl, rfl, rfl⟩

theorem plain_message {m : Message} (h : m.quiet = true) : LoopEvent.Plain (.message m) := by
  cases m with
  | watchdogTimeout n => cases h
  | pulses t n => cases h
  | _ => exact ⟨fun _ => rfl, rfl, rfl, rfl⟩

theorem Quiet.plain (h : Quiet es) : Plain es := by
  intro e he
  obtain ⟨m, hm, rfl⟩ | ⟨c, rfl⟩ := h e he
  · exact plain_message hm
  · exact plain_connected c

theorem plain_readBytes (f : Loop) (i : LoopInput) : Plain (f.readBytes i).2 := by
  rw [readBytes]
  split
  · exact plain_singleton ⟨fun _ => rfl, rfl, rfl, rfl⟩
  · exact plain_nil

theorem plain_enterTransfer (f : Loop) (i : LoopInput) : Plain (f.enterTransfer i).2 := by
  rw [enterTransfer]
  split
  · exact plain_singleton (plain_message rfl)
  · exact plain_nil

theorem plain_checkComplete (f : Loop) (i : LoopInput) : Plain (f.checkComplete i).2 := by
  rw [checkComplete]
  split
  · exact plain_singleton (plain_message rfl)
  · exact plain_nil

/-- A move that enters neither a transfer nor a disconnect. -/
theorem plain_moves {f f' : Loop} (hentry : f'.currentState ≠ .transferBitstream)
    (hdisconnect : f'.currentState ≠ .usbDisconnected) : Plain (f.moves f') := by
  rw [moves]
  split
  · exact plain_nil
  · refine plain_singleton ?_
    cases hstate : f'.currentState with
    | transferBitstream => exact absurd hstate hentry
    | usbDisconnected => exact absurd hstate hdisconnect
    | _ => exact ⟨fun _ => rfl, rfl, rfl, rfl⟩

@[simp]
theorem moves_self {f f' : Loop} (h : f'.currentState = f.currentState) : f.moves f' = [] := by
  rw [moves, if_pos h.symm]

/-- The firmware waits, and the port is disconnected. -/
theorem iterate_of_lost (hstate : f.currentState = .waitForBitstreamTransfer)
    (hc : i.connected = false) : (f.iterate i).1.busy = false ∧ ∃ pre, Plain pre ∧
      (f.iterate i).2 = pre ++ [.move .waitForBitstreamTransfer .usbDisconnected] := by
  obtain ⟨-, -, -, hcur, hquiet⟩ := body_of_wait hstate i
  have hevents : (f.iterate i).2 = (f.body i).2 ++ f.moves (f.body i).1 := rfl
  rw [hc] at hcur
  have new : (f.body i).1.busy = false := by rw [busy, hcur]; rfl
  refine ⟨new, (f.body i).2, hquiet.plain, ?_⟩
  rw [hevents, moves, hcur, hstate]
  rfl

/-- The array is flashed, and the pulses are counted. -/
theorem iterate_of_flash (hstate : f.currentState = .flashFpga) (i : LoopInput) :
    (f.iterate i).1.busy = false ∧ ∃ pre, Plain pre ∧
      (f.iterate i).2 = pre ++ [.flashed f.bitstream, .message (.pulses i.times i.pulseCount),
        .move .flashFpga .idle] := by
  have hbody : f.body i = ({ f with
      previousState := .flashFpga
      currentState := .idle }, f.announce .flashing ++
        [.flashed f.bitstream, .message (.pulses i.times i.pulseCount)]) := by
    rw [body.eq_def, hstate]
  rw [iterate, hbody]
  refine ⟨rfl, f.announce .flashing, (quiet_announce f rfl).plain, ?_⟩
  rw [moves, hstate, List.append_assoc]
  rfl

/-- **What an iteration waiting for a transfer does.** -/
theorem pass_of_wait (hstate : f.currentState = .waitForBitstreamTransfer) (i : LoopInput) :
    Pass f i (f.iterate i).1 (f.iterate i).2 := by
  have old : f.busy = false := by rw [busy, hstate]
  obtain ⟨-, -, -, hcur, hquiet⟩ := body_of_wait hstate i
  have hevents : (f.iterate i).2 = (f.body i).2 ++ f.moves (f.body i).1 := rfl
  cases hc : i.connected with
  | false =>
    obtain ⟨new, pre, plain, hpre⟩ := iterate_of_lost hstate hc
    exact .lost pre hstate hc new hpre plain
  | true =>
    rw [hc, if_pos rfl] at hcur
    by_cases hw : i.waiting ≠ 0
    · rw [if_pos hw] at hcur
      have new : (f.body i).1.busy = true := by rw [busy, hcur]
      refine .enters (f.body i).2 old new ?_ hquiet.plain
      rw [hevents, moves, hcur, hstate]
      rfl
    · rw [if_neg hw] at hcur
      have new : (f.body i).1.busy = false := by rw [busy, hcur]
      refine .outside old new ?_
      rw [hevents, moves_self (hcur.trans hstate.symm), List.append_nil]
      exact hquiet.plain

/-- The watchdog does not change what is read. -/
@[simp] theorem bytesRead_checkWatchdog (f : Loop) (i : LoopInput) :
    (f.checkWatchdog i).1.bytesRead i = f.bytesRead i := by
  obtain ⟨-, hnum, -, -⟩ := checkWatchdog_spec f i
  rw [bytesRead, bytesRead, numToRead, numToRead, hnum]

/-- **A transfer whose port is lost** ends with the move to `USB_DISCONNECTED`. -/
theorem pass_of_unplugged (hstate : f.currentState = .transferBitstream)
    (hc : ¬i.connected = true) :
    Pass f i (f.transfer i).1 ((f.transfer i).2 ++ f.moves (f.transfer i).1) := by
  have hgiven : f.transfer i = ({ (f.enterTransfer i).1 with
      previousState := (f.enterTransfer i).1.currentState
      currentState := .usbDisconnected
      numReceivedBitstreamBytes := 0 }, (f.enterTransfer i).2 ++ [.connected false]) := by
    rw [transfer, if_neg hc]
  rw [hgiven]
  refine .ends ((f.enterTransfer i).2 ++ [.connected false])
    (.move .transferBitstream .usbDisconnected) [] hstate (fun hdouble => hc hdouble.2.1) rfl ?_
    ((plain_enterTransfer f i).append (plain_singleton (plain_connected false))) plain_nil
    (fun wide => Bool.or_true wide) rfl rfl
  rw [moves, hstate]
  rfl

/-- **What an iteration in a transfer does.** -/
theorem pass_of_transfer {t : Option (List UInt8)} (hf : f.Holds t)
    (hstate : f.currentState = .transferBitstream) (i : LoopInput) :
    Pass f i (f.iterate i).1 (f.iterate i).2 := by
  have hbody : f.body i = f.transfer i := by rw [body.eq_def, hstate]
  have hevents : (f.iterate i).2 = (f.transfer i).2 ++ f.moves (f.transfer i).1 := by
    rw [iterate, hbody]
  have hleft : (f.iterate i).1 = (f.transfer i).1 := by rw [iterate, hbody]
  rw [hevents, hleft]
  have hentered := plain_enterTransfer f i
  by_cases hc : i.connected = true
  · obtain ⟨hcur, -, hbuf, hlt, -, -⟩ := enterTransfer_spec hf hstate i
    obtain ⟨hbuf', hnum', -, hexpired⟩ := checkWatchdog_spec (f.enterTransfer i).1 i
    have hlen : ((f.enterTransfer i).1.checkWatchdog i).1.bitstream.length =
        bitstreamSizeLengthBytes := by rw [hbuf', hbuf, hf.length]
    obtain ⟨hcur'', -, -, hnum'', -, -, -⟩ := readBytes_spec hlen
      (by rw [hnum']; exact Nat.le_of_lt hlt) i _ rfl
    rw [hnum', bytesRead_checkWatchdog] at hnum''
    obtain ⟨-, -, -, hcomplete⟩ := checkComplete_spec
      (((f.enterTransfer i).1.checkWatchdog i).1.readBytes i).1 i
    have hread := plain_readBytes ((f.enterTransfer i).1.checkWatchdog i).1 i
    have hcompleted := plain_checkComplete
      (((f.enterTransfer i).1.checkWatchdog i).1.readBytes i).1 i
    rw [transfer_of_connected hc]
    have hfront : Plain ((f.enterTransfer i).2 ++ [.connected true]) :=
      hentered.append (plain_singleton (plain_connected true))
    have hsplit : ∀ w r k m : List LoopEvent,
        (f.enterTransfer i).2 ++ .connected true :: (w ++ r ++ k) ++ m =
          ((f.enterTransfer i).2 ++ [.connected true]) ++ (w ++ (r ++ k ++ m)) := by
      intro w r k m
      simp only [List.append_assoc, List.cons_append, List.nil_append]
    rw [hsplit]
    obtain ⟨hexp, hwait⟩ | ⟨hexp, hgoes⟩ := hexpired
    · have htimeout : ((f.enterTransfer i).1.checkWatchdog i).2 = [.message
          (.watchdogTimeout (f.enterTransfer i).1.numReceivedBitstreamBytes.toNat)] := by
        rw [checkWatchdog, if_pos hexp]
      rw [htimeout]
      obtain ⟨hfull, hflash⟩ | ⟨hpart, hsame⟩ := hcomplete
      · -- the watchdog has expired, and the transfer is complete
        have hmoves := plain_moves (f := f) (by rw [hflash]; decide) (by rw [hflash]; decide)
        have hback := (hread.append hcompleted).append hmoves
        refine .double ⟨hstate, hc, hexp, hnum'' ▸ hfull⟩ hflash (fun e he => ?_) ?_
        · obtain he | he := List.mem_append.mp he
          · exact (hfront e he).entry
          · obtain rfl | he := List.mem_cons.mp he
            · rfl
            · exact (hback e he).entry
        · rw [List.any_append, List.any_append]
          exact Bool.or_eq_true_iff.mpr (Or.inr rfl)
      · rw [hsame] at hcompleted ⊢
        have hnew : (((f.enterTransfer i).1.checkWatchdog i).1.readBytes i).1.currentState =
            .waitForBitstreamTransfer := by rw [hcur'', hwait]
        have hmoves := plain_moves (f := f) (by rw [hnew]; decide) (by rw [hnew]; decide)
        refine .ends _ _ _ hstate (fun hdouble => ?_) (by rw [busy, hnew]) rfl hfront
          ((hread.append hcompleted).append hmoves) (fun _ => rfl) rfl rfl
        exact Nat.not_le_of_lt hpart (hnum'' ▸ hdouble.2.2.2)
    · rw [hgoes] at hread hcompleted hcomplete hcur'' ⊢
      have hsingle : ¬Double f i := fun hdouble => by
        rw [hdouble.2.2.1] at hexp
        cases hexp
      obtain ⟨-, hflash⟩ | ⟨-, hsame⟩ := hcomplete
      · have hmoves := plain_moves (f := f) (by rw [hflash]; decide) (by rw [hflash]; decide)
        exact .goesOn hstate hsingle (by rw [busy, hflash])
          (hfront.append (plain_nil.append ((hread.append hcompleted).append hmoves)))
      · rw [hsame] at hcompleted ⊢
        have hnew : (((f.enterTransfer i).1, ([] : List LoopEvent)).1.readBytes i).1.currentState =
            .transferBitstream := hcur''.trans hcur
        refine .goesOn hstate hsingle (by rw [busy, hnew])
          (hfront.append (plain_nil.append ((hread.append hcompleted).append ?_)))
        rw [moves_self (hnew.trans hstate.symm)]
        exact plain_nil
  · exact pass_of_unplugged hstate hc

/-- **What an iteration does**, in every state. -/
theorem pass_of_iterate {t : Option (List UInt8)} (hf : f.Holds t) (i : LoopInput) :
    Pass f i (f.iterate i).1 (f.iterate i).2 := by
  by_cases hwait : f.currentState = .waitForBitstreamTransfer
  · exact pass_of_wait hwait i
  by_cases htransfer : f.currentState = .transferBitstream
  · exact pass_of_transfer hf htransfer i
  by_cases hflash : f.currentState = .flashFpga
  · obtain ⟨new, pre, plain, hpre⟩ := iterate_of_flash hflash i
    exact .counts pre hflash new hpre plain
  · obtain ⟨-, -, new, hdisconnect, hquiet⟩ := body_outside hwait htransfer hflash i
    have old : f.busy = false := busy_eq_false_iff.mpr ⟨htransfer, hflash⟩
    refine .outside old new (hquiet.plain.append ?_)
    obtain hdisconnect | hsame := hdisconnect
    · exact plain_moves (busy_eq_false_iff.mp new).1 hdisconnect
    · rw [moves_self hsame]
      exact plain_nil

/-! ### Runs -/

/-- The firmware after `n` iterations, and what has been seen of them. -/
def after (inputs : ℕ → LoopInput) : ℕ → Loop × List LoopEvent
  | 0 => (boot, [])
  | n + 1 =>
    let r := after inputs n
    ((r.1.iterate (inputs n)).1, r.2 ++ (r.1.iterate (inputs n)).2)

/-- Each attempt of a run has one outcome; an attempt is the events between an entry
into a transfer and the next one. -/
def OneOutcomeEach (wide : Bool) (es : List LoopEvent) : Prop :=
  Each LoopEvent.isEntry (OneOutcome wide) es

@[simp] theorem run_concat (f : Loop) (is : List LoopInput) (i : LoopInput) :
    f.run (is ++ [i]) =
      (((f.run is).1.iterate i).1, (f.run is).2 ++ ((f.run is).1.iterate i).2) := by
  induction is generalizing f with
  | nil => simp [run]
  | cons j is ih => simp [run, ih]

theorem after_eq_run (inputs : ℕ → LoopInput) (n : ℕ) :
    after inputs n = boot.run ((List.range n).map inputs) := by
  induction n with
  | zero => rfl
  | succ n ih => rw [after, ih, List.range_succ, List.map_append, List.map_singleton, run_concat]

/-- Where the firmware waits, the port is disconnected although a transfer has been
entered before. -/
def Lost (f : Loop) (i : LoopInput) (es : List LoopEvent) : Prop :=
  f.currentState = .waitForBitstreamTransfer ∧ i.connected = false ∧
    es.any LoopEvent.isEntry = true

/-- **The attempt under way** has no outcome yet while the firmware is busy with it,
and one afterwards. -/
structure Attempt (wide : Bool) (f : Loop) (es : List LoopEvent) : Prop where
  entered : f.busy = true → ∃ l, since LoopEvent.isEntry es = some l
  underWay : f.busy = true → ∀ l, since LoopEvent.isEntry es = some l →
    Marked wide l 0 false false
  ended : f.busy = false → ∀ l, since LoopEvent.isEntry es = some l →
    ∃ t c, Marked wide l 1 t c ∧ (t = true → c = false)

theorem attempt_boot (wide : Bool) : Attempt wide boot [] where
  entered := nofun
  underWay := nofun
  ended _ _ h := nomatch h

@[simp] theorem busy_of_transfer (h : f.currentState = .transferBitstream) : f.busy = true := by
  rw [busy, h]

@[simp] theorem busy_of_flash (h : f.currentState = .flashFpga) : f.busy = true := by
  rw [busy, h]

variable {wide : Bool} {es' : List LoopEvent}

/-- The attempt is what it was, with events at which nothing begins. -/
theorem exists_of_since_append (hentry : ∀ e ∈ es', e.isEntry = false) {l : List LoopEvent}
    (hl : since LoopEvent.isEntry (es ++ es') = some l) :
    ∃ l₀, since LoopEvent.isEntry es = some l₀ ∧ l = l₀ ++ es' := by
  rw [since_append_of_forall hentry] at hl
  obtain ⟨l₀, hl₀, rfl⟩ := Option.map_eq_some_iff.mp hl
  exact ⟨l₀, hl₀, rfl⟩

/-- After an iteration with which the attempt is over. -/
theorem attempt_over (heach : OneOutcomeEach wide es) (new : f'.busy = false)
    (hentry : ∀ e ∈ es', e.isEntry = false)
    (h : ∀ l, since LoopEvent.isEntry es = some l →
      ∃ t c, Marked wide (l ++ es') 1 t c ∧ (t = true → c = false)) :
    Attempt wide f' (es ++ es') ∧ OneOutcomeEach wide (es ++ es') := by
  refine ⟨⟨fun hb => absurd (new.symm.trans hb) Bool.false_ne_true,
    fun hb => absurd (new.symm.trans hb) Bool.false_ne_true, fun _ l hl => ?_⟩,
    heach.append OneOutcome.mono hentry fun l hl => ?_⟩
  · obtain ⟨l₀, hl₀, rfl⟩ := exists_of_since_append hentry hl
    exact h l₀ hl₀
  · obtain ⟨t, c, hmarked, htc⟩ := h l hl
    exact hmarked.oneOutcome (Nat.le_refl 1) htc

/-- **An iteration that neither ends an attempt twice nor loses the port in
between** leaves an attempt with one outcome at most. -/
theorem attempt_step (h : Attempt wide f es) (heach : OneOutcomeEach wide es)
    (hpass : Pass f i f' es') (hsingle : ¬Double f i) (hlost : wide = true → ¬Lost f i es) :
    Attempt wide f' (es ++ es') ∧ OneOutcomeEach wide (es ++ es') := by
  cases hpass with
  | outside old new plain =>
    refine attempt_over heach new plain.entry fun l hl => ?_
    obtain ⟨t, c, hmarked, htc⟩ := h.ended old l hl
    refine ⟨t || false, c || false, hmarked.append (plain.marked wide), ?_⟩
    rwa [Bool.or_false, Bool.or_false]
  | lost pre old disconnected new events plain =>
    have hold : f.busy = false := by rw [busy, old]
    subst events
    refine attempt_over heach new (List.forall_mem_append.mpr ⟨plain.entry, ?_⟩) fun l hl => ?_
    · exact List.forall_mem_singleton.mpr rfl
    · cases wide with
      | true => exact absurd ⟨old, disconnected, exists_since_iff.mp ⟨l, hl⟩⟩ (hlost rfl)
      | false =>
        obtain ⟨t, c, hmarked, htc⟩ := h.ended hold l hl
        have hmove : Marked false [.move .waitForBitstreamTransfer .usbDisconnected] 0 false
            false := ⟨rfl, rfl, rfl⟩
        refine ⟨t || (false || false), c || (false || false),
          hmarked.append ((plain.marked false).append hmove), ?_⟩
        rwa [Bool.or_self, Bool.or_false, Bool.or_false]
  | enters pre old new events plain =>
    subst events
    have hpre : OneOutcomeEach wide (es ++ pre) := by
      refine heach.append OneOutcome.mono plain.entry fun l hl => ?_
      obtain ⟨t, c, hmarked, htc⟩ := h.ended old l hl
      refine (hmarked.append (plain.marked wide)).oneOutcome (Nat.le_refl 1) ?_
      rwa [Bool.or_false, Bool.or_false]
    have hnone : Marked wide [] 0 false false := ⟨rfl, rfl, rfl⟩
    have hentry : LoopEvent.isEntry (.move .waitForBitstreamTransfer .transferBitstream) = true :=
      rfl
    rw [← List.append_assoc]
    refine ⟨⟨fun _ => ⟨[], since_concat hentry _⟩, fun _ l hl => ?_,
      fun hb => absurd (hb.symm.trans new) Bool.false_ne_true⟩,
      hpre.concat hentry hnone.oneOutcome_zero⟩
    rw [since_concat hentry] at hl
    obtain rfl := Option.some.inj hl
    exact hnone
  | goesOn old single new plain =>
    have hmarked : ∀ l, since LoopEvent.isEntry es = some l →
        Marked wide (l ++ es') 0 false false := fun l hl =>
      (h.underWay (busy_of_transfer old) l hl).append (plain.marked wide)
    refine ⟨⟨fun _ => ?_, fun _ l hl => ?_,
      fun hb => absurd (hb.symm.trans new) Bool.false_ne_true⟩,
      heach.append OneOutcome.mono plain.entry fun l hl => (hmarked l hl).oneOutcome_zero⟩
    · obtain ⟨l, hl⟩ := h.entered (busy_of_transfer old)
      exact ⟨l ++ es', by rw [since_append_of_forall plain.entry, hl]; rfl⟩
    · obtain ⟨l₀, hl₀, rfl⟩ := exists_of_since_append plain.entry hl
      exact hmarked l₀ hl₀
  | ends pre e post old single new events before after outcome counted entry =>
    subst events
    refine attempt_over heach new (List.forall_mem_append.mpr ⟨before.entry, ?_⟩) fun l hl => ?_
    · exact List.forall_mem_cons.mpr ⟨entry, after.entry⟩
    · have hend : Marked wide [e] 1 e.isTimeout false := by
        refine ⟨?_, Bool.or_false _, ?_⟩
        · rw [List.countP_singleton, if_pos (outcome wide)]
        · rw [List.any_cons, counted]
          rfl
      exact ⟨_, _, (h.underWay (busy_of_transfer old) l hl).append ((before.marked wide).append
        (hend.append (after.marked wide))), fun _ => rfl⟩
  | double double new entries timeout => exact absurd double hsingle
  | counts pre old new events plain =>
    subst events
    refine attempt_over heach new (List.forall_mem_append.mpr ⟨plain.entry, ?_⟩) fun l hl => ?_
    · simp [LoopEvent.isEntry]
    · have hcount : Marked wide [.flashed f.bitstream, .message (.pulses i.times i.pulseCount),
          .move .flashFpga .idle] 1 false true := ⟨rfl, rfl, rfl⟩
      exact ⟨_, _, (h.underWay (busy_of_flash old) l hl).append
        ((plain.marked wide).append hcount), fun ht => absurd ht Bool.false_ne_true⟩

/-! ### Second outcomes, and the exact condition -/

/-- **Two outcomes**: after an iteration in which two begin, the next one flashes
and counts what has been reported as timed out. -/
theorem not_oneOutcomeEach_of_double {t : Option (List UInt8)} (hf : f.Holds t)
    (h : Attempt wide f es) (hdouble : Double f i) (j : LoopInput) :
    ¬OneOutcomeEach wide (es ++ (f.iterate i).2 ++ ((f.iterate i).1.iterate j).2) := by
  have hbusy := busy_of_transfer hdouble.1
  have hafter := (iterate_spec hf i).2
  intro heach
  cases pass_of_iterate hf i with
  | outside old => exact absurd (old.symm.trans hbusy) Bool.false_ne_true
  | lost pre old => rw [busy, old] at hbusy; cases hbusy
  | enters pre old => exact absurd (old.symm.trans hbusy) Bool.false_ne_true
  | goesOn old single => exact single hdouble
  | ends pre e post old single => exact single hdouble
  | counts pre old => rw [hdouble.1] at old; cases old
  | double double new entries timeout =>
    obtain ⟨-, pre, plain, hpre⟩ := iterate_of_flash new j
    obtain ⟨l, hl⟩ := h.entered hbusy
    have hentry : ∀ e ∈ (f.iterate i).2 ++ ((f.iterate i).1.iterate j).2, e.isEntry = false := by
      rw [hpre]
      refine List.forall_mem_append.mpr ⟨entries, List.forall_mem_append.mpr ⟨plain.entry, ?_⟩⟩
      simp [LoopEvent.isEntry]
    rw [List.append_assoc] at heach
    have hone := heach.since (by rw [since_append_of_forall hentry, hl]; rfl)
    have hcounted := hone.honest (by
      rw [List.any_append, List.any_append, timeout, Bool.true_or, Bool.or_true])
    rw [hpre] at hcounted
    simp [LoopEvent.isCounted] at hcounted

/-- A disconnect after an attempt has ended is a second outcome, if it is
counted. -/
theorem not_oneOutcomeEach_of_lost (h : Attempt true f es) (hlost : Lost f i es) :
    ¬OneOutcomeEach true (es ++ (f.iterate i).2) := by
  obtain ⟨hwait, hdisconnected, hentered⟩ := hlost
  obtain ⟨l, hl⟩ := exists_since_iff.mpr hentered
  obtain ⟨t, c, hmarked, -⟩ := h.ended (by rw [busy, hwait]) l hl
  obtain ⟨-, pre, plain, hpre⟩ := iterate_of_lost hwait hdisconnected
  have hmove : Marked true [.move .waitForBitstreamTransfer .usbDisconnected] 1 false false :=
    ⟨rfl, rfl, rfl⟩
  have hentry : ∀ e ∈ (f.iterate i).2, e.isEntry = false := by
    rw [hpre]
    exact List.forall_mem_append.mpr ⟨plain.entry, List.forall_mem_singleton.mpr rfl⟩
  intro heach
  have hone := (heach.since (by rw [since_append_of_forall hentry, hl]; rfl)).one
  rw [hpre, (hmarked.append ((plain.marked true).append hmove)).outcomes] at hone
  omega

/-- What has been seen after two outcomes have begun. -/
theorem not_oneOutcomeEach_after {inputs : ℕ → LoopInput} {n : ℕ}
    (h : Attempt wide (after inputs n).1 (after inputs n).2)
    (hdouble : Double (after inputs n).1 (inputs n)) :
    ¬OneOutcomeEach wide (after inputs (n + 2)).2 := by
  have hholds : (after inputs n).1.Holds _ := after_eq_run inputs n ▸ (run_spec holds_boot _).2
  exact not_oneOutcomeEach_of_double hholds h hdouble (inputs (n + 1))

/-- **The exact condition.** In every run of the loop, an attempt has one outcome at
most, and none reported as timed out is flashed and counted, if and only if the
watchdog has expired in no iteration in which the bytes read complete the
transfer, and, where every disconnect counts, none happens after an attempt has
ended and before the next one. -/
theorem oneOutcome_iff (wide : Bool) (inputs : ℕ → LoopInput) :
    (∀ n, OneOutcomeEach wide (after inputs n).2) ↔
      ∀ n, ¬Double (after inputs n).1 (inputs n) ∧
        (wide = true → ¬Lost (after inputs n).1 (inputs n) (after inputs n).2) := by
  have hholds : ∀ n, ∃ t, (after inputs n).1.Holds t := fun n =>
    ⟨_, after_eq_run inputs n ▸ (run_spec holds_boot _).2⟩
  have hstep : ∀ n, Attempt wide (after inputs n).1 (after inputs n).2 →
      OneOutcomeEach wide (after inputs n).2 → ¬Double (after inputs n).1 (inputs n) →
      (wide = true → ¬Lost (after inputs n).1 (inputs n) (after inputs n).2) →
      Attempt wide (after inputs (n + 1)).1 (after inputs (n + 1)).2 ∧
        OneOutcomeEach wide (after inputs (n + 1)).2 := by
    intro n hattempt heach hsingle hlost
    obtain ⟨t, ht⟩ := hholds n
    exact attempt_step hattempt heach (pass_of_iterate ht (inputs n)) hsingle hlost
  constructor
  · intro h
    -- either gives an attempt two outcomes, where those before it have one each
    have hexcluded : ∀ n, Attempt wide (after inputs n).1 (after inputs n).2 →
        ¬Double (after inputs n).1 (inputs n) ∧
          (wide = true → ¬Lost (after inputs n).1 (inputs n) (after inputs n).2) := by
      intro n hattempt
      constructor
      · exact fun hdouble => not_oneOutcomeEach_after hattempt hdouble (h (n + 2))
      · rintro rfl hlost
        exact not_oneOutcomeEach_of_lost hattempt hlost (h (n + 1))
    have hattempt : ∀ n, Attempt wide (after inputs n).1 (after inputs n).2 := by
      intro n
      induction n with
      | zero => exact attempt_boot wide
      | succ n ih =>
        obtain ⟨hsingle, hlost⟩ := hexcluded n ih
        exact (hstep n ih (h n) hsingle hlost).1
    exact fun n => hexcluded n (hattempt n)
  · intro h
    have hboth : ∀ n, Attempt wide (after inputs n).1 (after inputs n).2 ∧
        OneOutcomeEach wide (after inputs n).2 := by
      intro n
      induction n with
      | zero => exact ⟨attempt_boot wide, each_nil⟩
      | succ n ih => exact hstep n ih.1 ih.2 (h n).1 (h n).2
    exact fun n => (hboth n).2

/-- The bytes that complete a transfer, read where the watchdog has expired. -/
def lateInput : LoopInput where
  connected := true
  waiting := 1
  available := sizeWord
  read n := List.replicate n.toNat 0
  read_le _ := Nat.le_of_eq List.length_replicate
  entered := 0
  checked := 2000001
  restarted := 2000002
  completed := 2000003
  times := ⟨1, 2, 3, 4, 5⟩
  pulseCount := 7

/-- The firmware has just entered the transfer. -/
theorem attempt_lateInput (wide : Bool) : Attempt wide (after (fun _ => lateInput) 4).1
    (after (fun _ => lateInput) 4).2 := by
  have hsince : since LoopEvent.isEntry (after (fun _ => lateInput) 4).2 = some [] := rfl
  refine ⟨fun _ => ⟨[], hsince⟩, fun _ l hl => ?_, fun hb => absurd hb (by decide)⟩
  rw [hsince] at hl
  obtain rfl := Option.some.inj hl
  exact ⟨rfl, rfl, rfl⟩

theorem double_lateInput : Double (after (fun _ => lateInput) 4).1 lateInput := by
  have hread : ∀ f : Loop, f.numReceivedBitstreamBytes = 0 →
      (f.bytesRead lateInput).length = bitstreamSizeLengthBytes := by
    intro f hf
    have hpos : lateInput.available.toInt > 0 := by decide
    have hasked : f.numToRead lateInput.available = sizeWord := by
      rw [numToRead, hf]
      decide
    rw [bytesRead, if_pos hpos, hasked, ← toNat_sizeWord]
    exact List.length_replicate
  refine ⟨rfl, rfl, rfl, ?_⟩
  rw [hread _ rfl]
  exact Nat.le_add_left _ _

/-- **A transfer that is reported as timed out, and is flashed and counted.** -/
theorem lateInput_counted : ¬OneOutcomeEach false (after (fun _ => lateInput) 6).2 ∧
    ¬OneOutcomeEach true (after (fun _ => lateInput) 6).2 :=
  ⟨not_oneOutcomeEach_after (attempt_lateInput false) double_lateInput,
    not_oneOutcomeEach_after (attempt_lateInput true) double_lateInput⟩

end Loop

end UsbipIce.PulseCount
