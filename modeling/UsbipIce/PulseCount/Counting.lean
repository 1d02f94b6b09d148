import Mathlib.Algebra.Order.Ring.Nat
import UsbipIce.PulseCount.Loop

/-!
# The window of the count

In `FLASH_FPGA` the firmware counts pulses while a loop waits for a deadline. The
millisecond clock is a `uint32_t` and comes round after seven weeks; the deadline
is an `int`, and is compared with the clock as a `uint32_t` again.

The conversions cancel out, so the deadline is the word 5000 behind the start
(`UsbipIce.PulseCount.ofInt_deadline`). What does not come out right is the
comparison: a deadline on the other side of the wrap is behind every reading
before the wrap, and ahead of every reading after it. The window has its five
seconds exactly where the readings up to its end are on the side of the deadline
(`UsbipIce.PulseCount.countingLoop_iff`).
-/

namespace UsbipIce.PulseCount

/-! ### The elements up to the first one with a property -/

section UpTo

variable {α : Type*} {p q : α → Bool}

/-- The elements up to the first one satisfying `p`, if there is one. -/
def upTo (p : α → Bool) : List α → Option (List α)
  | [] => none
  | a :: l => if p a then some [a] else (upTo p l).map (a :: ·)

@[simp] theorem upTo_cons (p : α → Bool) (a : α) (l : List α) :
    upTo p (a :: l) = if p a then some [a] else (upTo p l).map (a :: ·) :=
  rfl

theorem upTo_ne_nil (l : List α) : upTo p l ≠ some [] := by
  cases l with
  | nil => exact nofun
  | cons a l =>
    rw [upTo_cons]
    split
    · exact fun h => List.cons_ne_nil _ _ (Option.some.inj h)
    · intro h
      obtain ⟨l', -, hl'⟩ := Option.map_eq_some_iff.mp h
      exact List.cons_ne_nil _ _ hl'

/-- A list that goes on does not end with its first element. -/
theorem map_cons_upTo_ne (a : α) (l : List α) : (upTo p l).map (a :: ·) ≠ some [a] := by
  intro h
  obtain ⟨l', hl', heq⟩ := Option.map_eq_some_iff.mp h
  rw [(List.cons.inj heq).2] at hl'
  exact upTo_ne_nil l hl'

/-- **Two properties end a list at the same element** where they agree up to
it. -/
theorem upTo_eq_iff {l : List α} :
    upTo p l = upTo q l ↔
      ∀ pre a post, l = pre ++ a :: post → (∀ b ∈ pre, q b = false) → p a = q a := by
  induction l with
  | nil =>
    refine iff_of_true rfl fun pre a post h => ?_
    exact absurd h.symm (List.append_ne_nil_of_right_ne_nil _ (List.cons_ne_nil _ _))
  | cons a l ih =>
    have hhead : (∀ pre b post, a :: l = pre ++ b :: post → (∀ c ∈ pre, q c = false) → p b = q b) ↔
        p a = q a ∧ (q a = false → upTo p l = upTo q l) := by
      rw [ih]
      constructor
      · refine fun h => ⟨h [] a l rfl fun c hc => absurd hc List.not_mem_nil, ?_⟩
        intro hqa pre b post heq hpre
        refine h (a :: pre) b post (congrArg (a :: ·) heq) fun c hc => ?_
        rcases List.mem_cons.mp hc with rfl | hc
        · exact hqa
        · exact hpre c hc
      · rintro ⟨hpq, hrest⟩ pre b post heq hpre
        obtain ⟨rfl, heq⟩ | ⟨pre', rfl, heq⟩ := List.cons_eq_append_iff.mp heq
        · obtain rfl := (List.cons.inj heq).1
          exact hpq
        · exact hrest (hpre a List.mem_cons_self) pre' b post (List.cons.inj heq).2 fun c hc =>
            hpre c (List.mem_cons_of_mem _ hc)
    rw [hhead, upTo_cons, upTo_cons]
    cases hp : p a with
    | true =>
      cases hq : q a with
      | true => simp
      | false => simpa using (map_cons_upTo_ne a l).symm
    | false =>
      cases hq : q a with
      | true => simpa using map_cons_upTo_ne a l
      | false => simpa using (Option.map_injective (List.cons_injective (a := a))).eq_iff

end UpTo

/-! ### The loop -/

/-- A reading of the millisecond clock, and the pulses counted between the last
one and it. -/
structure Reading where
  now : Word
  pulses : ℕ
  deriving DecidableEq

/-- `int time = to_ms_since_boot(get_absolute_time()); time += 5000;`: the word
is taken with its sign, and the sum wraps. -/
def deadline (start : Word) : ℤ := (BitVec.ofInt 32 (start.toInt + 5000)).toInt

/-- `to_ms_since_boot(get_absolute_time()) < time`: the `int` is taken as a word
without a sign. -/
def waits (time : ℤ) (r : Reading) : Bool := decide (r.now < BitVec.ofInt 32 time)

/-- **The loop**: the readings it makes, unless it is still waiting after the
last one. -/
def countingLoop (time : ℤ) : List Reading → Option (List Reading)
  | [] => none
  | r :: rs => if waits time r then (countingLoop time rs).map (r :: ·) else some [r]

/-- `pulse_count`, when the loop is left. -/
def pulseCount (rs : List Reading) : ℕ := (rs.map Reading.pulses).sum

/-- The count that is written to the port. -/
def reportedCount (start : Word) (rs : List Reading) : Option ℕ :=
  (countingLoop (deadline start) rs).map pulseCount

/-- At least 5000 ms have elapsed, modulo the wrap. -/
def elapsed (start : Word) (r : Reading) : Bool := decide (5000 ≤ r.now - start)

/-- The readings of the window of 5000 ms. -/
def window (start : Word) (rs : List Reading) : Option (List Reading) := upTo (elapsed start) rs

/-- **The loop covers the window**: it ends exactly at the first reading at which
5000 ms have elapsed. -/
def CoversWindow (start : Word) (rs : List Reading) : Prop :=
  countingLoop (deadline start) rs = window start rs

/-! ### Where the deadline is -/

variable {start : Word} {rs : List Reading}

/-- The conversions cancel out. -/
@[simp]
theorem ofInt_deadline (start : Word) : BitVec.ofInt 32 (deadline start) = start + 5000 := by
  rw [deadline, BitVec.ofInt_toInt, BitVec.ofInt_add, BitVec.ofInt_toInt]
  rfl

theorem countingLoop_eq_upTo (time : ℤ) (rs : List Reading) :
    countingLoop time rs = upTo (fun r => !waits time r) rs := by
  induction rs with
  | nil => rfl
  | cons r rs ih =>
    rw [countingLoop, upTo_cons, ih]
    cases waits time r <;> rfl

/-- **One reading**: the comparison says whether 5000 ms have elapsed exactly for
a reading on the deadline's side of the wrap. -/
theorem waits_iff (start : Word) (r : Reading) :
    (!waits (deadline start) r) = elapsed start r ↔ (start ≤ r.now ↔ start ≤ start + 5000) := by
  rw [waits, ofInt_deadline, elapsed, ← decide_not, decide_eq_decide]
  bv_omega

/-- **The loop covers the window** exactly where the readings, up to the first
one at which 5000 ms have elapsed, are on the deadline's side of the wrap. -/
theorem countingLoop_iff (start : Word) (rs : List Reading) :
    CoversWindow start rs ↔
      ∀ pre r post, rs = pre ++ r :: post → (∀ r' ∈ pre, elapsed start r' = false) →
        (start ≤ r.now ↔ start ≤ start + 5000) := by
  rw [CoversWindow, countingLoop_eq_upTo, window, upTo_eq_iff]
  exact forall₄_congr fun pre r post _ => imp_congr_right fun _ => waits_iff start r

/-- The count is then that of the window. -/
theorem CoversWindow.reportedCount (h : CoversWindow start rs) :
    reportedCount start rs = (window start rs).map pulseCount :=
  congrArg (Option.map pulseCount) h

/-- Where the clock does not wrap, the window is covered. -/
theorem coversWindow_of_le (hstart : start.toNat + 5000 < 2 ^ 32)
    (hrs : ∀ r ∈ rs, start ≤ r.now) : CoversWindow start rs := by
  refine (countingLoop_iff start rs).mpr fun pre r post heq _ => iff_of_true (hrs r ?_) ?_
  · rw [heq]
    exact List.mem_append_right _ List.mem_cons_self
  · bv_omega

/-- **The count is cut off**: where the deadline wraps, the first reading before
the clock does ends the loop. -/
theorem reportedCount_of_wrap (hstart : 2 ^ 32 ≤ start.toNat + 5000) {r : Reading}
    (hr : start ≤ r.now) : reportedCount start (r :: rs) = some r.pulses := by
  have hwaits : waits (deadline start) r = false := by
    rw [waits, ofInt_deadline, decide_eq_false_iff_not]
    bv_omega
  rw [reportedCount, countingLoop, hwaits]
  rfl

/-- A second before the wrap: the count ends with the first reading. -/
theorem late_start_cut_off :
    ¬CoversWindow (BitVec.ofNat 32 4294966296)
      [⟨BitVec.ofNat 32 4294966297, 1⟩, ⟨BitVec.ofNat 32 4000, 4999⟩] := by
  rw [CoversWindow]
  decide

end UsbipIce.PulseCount
