import Mathlib.Algebra.Order.Field.Rat
import Mathlib.Algebra.Order.Round
import Mathlib.Data.Rat.Floor
import Mathlib.Tactic.FieldSimp
import Mathlib.Tactic.Linarith

/-!
# Generated circuits

`generate_circuit` writes a circuit that divides the clock: a counter goes up to
a threshold and is set back, and `out` is high for the cycle behind that. It
returns the frequency of `out`, as the clock divided by the threshold.

From any registers, the counter comes back to zero every `incr + 1` cycles and
`out` rises as often (`UsbipIce.Utils.Circuit.periodic_of_lt`), unless the threshold is
beyond the 23 bits of the counter, where `out` never rises
(`UsbipIce.Utils.Circuit.not_rises`). A cycle more than the threshold is counted
in, so the frequency returned is never that of the circuit
(`UsbipIce.Utils.Circuit.not_truthful`).
-/

namespace UsbipIce.Utils.Circuit

/-! ### The function -/

/-- `int(q)`, which rounds towards zero. -/
def truncate (q : ℚ) : ℤ := if 0 ≤ q then ⌊q⌋ else ⌈q⌉

/-- `int((clk/hz) - 1)`. -/
def incr (clk hz : ℤ) : ℤ := truncate ((clk : ℚ) / hz - 1)

/-- The text of `top.v`. -/
def verilog (incr : ℤ) : String :=
  "
    module top (
        input CLK,
        output ICE_27,
        output LED_R,
        output LED_B
    );
    reg [22:0] counter;
    reg out;
    always @(posedge CLK) begin
        counter <= counter + 1;

        if (counter >= " ++ toString incr ++ ") begin
            out <= 1'b1;
            counter <= 23'b00000000000000000000000;
        end else begin
            out <= 1'b0;
        end
    end

    assign ICE_27 = out;
    assign LED_R = counter[22];
    endmodule
    "

/-- What `generate_circuit` leaves behind: the circuit, and the frequency in kHz
it returns. -/
structure Generated where
  top : String
  khz : ℚ

/-- `generate_circuit`, as far as the build succeeds; nothing where it divides
by zero. -/
def generateCircuit (hz clk : ℤ) : Option Generated :=
  if hz = 0 then none
  else if incr clk hz = 0 then none
  else some ⟨verilog (incr clk hz), clk / incr clk hz / 1000⟩

/-! ### The circuit -/

/-- The registers of the circuit. -/
structure Registers where
  counter : BitVec 23
  out : Bool
  deriving DecidableEq

/-- The block under `always @(posedge CLK)`: the assignments are not blocking, so
what is read is the register before the edge, and the last assignment counts. -/
def posedge (incr : ℤ) (r : Registers) : Registers :=
  let r' := { r with counter := r.counter + 1 }
  if r.counter.toNat ≥ incr then
    { r' with
      out := true
      counter := 0 }
  else { r' with out := false }

/-- The registers after some edges. -/
def registers (incr : ℤ) (r : Registers) : ℕ → Registers
  | 0 => r
  | t + 1 => posedge incr (registers incr r t)

/-- `out` rises with the edge behind cycle `t`. -/
def Rises (incr : ℤ) (r : Registers) (t : ℕ) : Prop :=
  (registers incr r t).out = false ∧ (registers incr r (t + 1)).out = true

/-- **From some cycle on, `out` rises every `P` cycles.** -/
def Periodic (incr : ℤ) (r : Registers) (P : ℕ) : Prop :=
  0 < P ∧ ∃ T, ∀ t, T ≤ t → (Rises incr r t ↔ P ∣ t - T)

/-- **The function tells the truth**: it returns, the circuit has a period, and
the frequency is that of the circuit. -/
def Truthful (clk hz : ℤ) (r : Registers) : Prop :=
  ∃ g, generateCircuit hz clk = some g ∧
    ∃ P, Periodic (incr clk hz) r P ∧ g.khz = (clk : ℚ) / P / 1000

/-! ### What the circuit does -/

@[simp] theorem posedge_of_lt {incr : ℤ} {r : Registers} (h : r.counter.toNat < incr) :
    posedge incr r = ⟨r.counter + 1, false⟩ := by
  rw [posedge, if_neg (not_le.mpr h)]

@[simp] theorem posedge_of_le {incr : ℤ} {r : Registers} (h : incr ≤ r.counter.toNat) :
    posedge incr r = ⟨0, true⟩ := by
  rw [posedge, if_pos h]

@[simp] theorem registers_add (incr : ℤ) (r : Registers) (s t : ℕ) :
    registers incr r (s + t) = registers incr (registers incr r s) t := by
  induction t with
  | zero => rfl
  | succ t ih => rw [← Nat.add_assoc, registers, ih, registers]

section Divider

variable {n : ℕ}

/-- Under the threshold, the counter counts. -/
theorem registers_count (hn : n < 2 ^ 23) {r : Registers} {k : ℕ} (hk : r.counter.toNat + k ≤ n) :
    (registers n r k).counter.toNat = r.counter.toNat + k := by
  induction k with
  | zero => rfl
  | succ k ih =>
    have hcount := ih (by omega)
    rw [registers, posedge_of_lt (by omega), BitVec.toNat_add, hcount]
    show (r.counter.toNat + k + 1) % 2 ^ 23 = _
    rw [Nat.mod_eq_of_lt (by omega)]
    omega

/-- It comes to be set back. -/
theorem exists_reset (hn : n < 2 ^ 23) (r : Registers) : ∃ t, registers n r t = ⟨0, true⟩ := by
  by_cases h : n ≤ r.counter.toNat
  · exact ⟨1, posedge_of_le (by exact_mod_cast h)⟩
  · have hcount := registers_count (r := r) (k := n - r.counter.toNat) hn (by omega)
    refine ⟨n - r.counter.toNat + 1, posedge_of_le ?_⟩
    rw [hcount]
    omega

/-- From there on, it is set back every `n + 1` edges. -/
theorem registers_reset (hn : n < 2 ^ 23) (q : ℕ) :
    registers n ⟨0, true⟩ (q * (n + 1)) = ⟨0, true⟩ := by
  induction q with
  | zero => rw [Nat.zero_mul]; rfl
  | succ q ih =>
    have hcount := registers_count (r := ⟨0, true⟩) (k := n) hn (Nat.zero_add n).le
    rw [Nat.succ_mul, registers_add, ih, registers, posedge_of_le]
    rw [hcount]
    omega

/-- **`out` is high** exactly where the counter has just been set back. -/
theorem out_iff (hn : n < 2 ^ 23) (k : ℕ) :
    (registers n ⟨0, true⟩ k).out = true ↔ n + 1 ∣ k := by
  obtain ⟨q, j, hj, rfl⟩ : ∃ q j, j ≤ n ∧ k = q * (n + 1) + j :=
    ⟨k / (n + 1), k % (n + 1), Nat.le_of_lt_succ (Nat.mod_lt _ n.succ_pos),
      (Nat.div_add_mod' k (n + 1)).symm⟩
  rw [registers_add, registers_reset hn, Nat.dvd_add_right (Nat.dvd_mul_left _ _)]
  cases j with
  | zero => exact iff_of_true rfl (Nat.dvd_zero _)
  | succ j =>
    have hcount := registers_count (r := ⟨0, true⟩) (k := j) hn
      ((Nat.zero_add j).trans_le (Nat.le_of_succ_le hj))
    have hlt : (registers n ⟨0, true⟩ j).counter.toNat < n := by
      rw [hcount]
      exact (Nat.zero_add j).trans_lt hj
    rw [registers, posedge_of_lt (by exact_mod_cast hlt)]
    exact iff_of_false Bool.false_ne_true (Nat.not_dvd_of_pos_of_lt j.succ_pos (by omega))

/-- **The circuit has the period `n + 1`**, where the counter holds the
threshold. -/
theorem periodic_of_lt (hpos : 0 < n) (hn : n < 2 ^ 23) (r : Registers) : Periodic n r (n + 1) := by
  obtain ⟨s, hs⟩ := exists_reset hn r
  refine ⟨n.succ_pos, s + n, fun t ht => ?_⟩
  obtain ⟨k, rfl⟩ : ∃ k, t = s + n + k := ⟨t - (s + n), by omega⟩
  have hlow : (registers n r (s + n + k)).out = true ↔ n + 1 ∣ n + k := by
    rw [Nat.add_assoc, registers_add, hs, out_iff hn]
  have hhigh : (registers n r (s + n + k + 1)).out = true ↔ n + 1 ∣ k := by
    rw [show s + n + k + 1 = s + (n + 1 + k) by omega, registers_add, hs, out_iff hn,
      Nat.dvd_add_right (Nat.dvd_refl _)]
  rw [Rises, hhigh, ← Bool.not_eq_true, hlow, Nat.add_sub_cancel_left]
  refine and_iff_right_of_imp fun hk hdvd => ?_
  -- `n + 1` divides `k` and `n + k`, so it divides `n`
  have hle := Nat.le_of_dvd hpos ((Nat.dvd_add_left hk).mp hdvd)
  omega

end Divider

/-- Beyond the range of the counter, `out` never rises. -/
theorem not_rises {incr : ℤ} (h : 2 ^ 23 ≤ incr) (r : Registers) (t : ℕ) : ¬Rises incr r t := by
  rintro ⟨-, hout⟩
  have hlt : ((registers incr r t).counter.toNat : ℤ) < incr := by
    have := (registers incr r t).counter.isLt
    omega
  rw [registers, posedge_of_lt hlt] at hout
  cases hout

/-- **A circuit has one period.** -/
theorem Periodic.unique {incr : ℤ} {r : Registers} {P P' : ℕ} (h : Periodic incr r P)
    (h' : Periodic incr r P') : P = P' := by
  have hdvd : ∀ {P P' : ℕ}, Periodic incr r P → Periodic incr r P' → P' ∣ P := by
    rintro P P' ⟨hpos, T, hT⟩ ⟨-, T', hT'⟩
    -- two rises that are `P` apart, behind both `T` and `T'`
    have hle : T' ≤ T + P * T' := (Nat.le_mul_of_pos_left T' hpos).trans (Nat.le_add_left _ _)
    have h₁ := (hT' _ hle).mp ((hT _ (Nat.le_add_right _ _)).mpr
      (by rw [Nat.add_sub_cancel_left]; exact Nat.dvd_mul_right _ _))
    have h₂ := (hT' _ (hle.trans (Nat.le_add_right _ P))).mp ((hT _ (by omega)).mpr (by
      rw [Nat.add_assoc, Nat.add_sub_cancel_left]
      exact Nat.dvd_add (Nat.dvd_mul_right _ _) (Nat.dvd_refl _)))
    rw [Nat.sub_add_comm hle] at h₂
    exact (Nat.dvd_add_right h₁).mp h₂
  exact Nat.dvd_antisymm (hdvd h' h) (hdvd h h')

/-! ### What the function returns -/

variable {clk hz : ℤ}

/-- The threshold, as a quotient of integers. -/
theorem incr_eq (hhz : 0 < hz) (h : 2 * hz ≤ clk) : incr clk hz = clk / hz - 1 := by
  obtain ⟨n, rfl⟩ := Int.eq_ofNat_of_zero_le hhz.le
  have hdiv : (2 : ℚ) ≤ (clk : ℚ) / (n : ℤ) := by
    refine (le_div_iff₀ ?_).mpr ?_
    · exact_mod_cast hhz
    · exact_mod_cast h
  rw [incr, truncate, if_pos (by linarith), Int.floor_sub_one, Int.cast_natCast,
    Rat.floor_intCast_div_natCast]

/-- It is positive. -/
theorem incr_pos (hhz : 0 < hz) (h : 2 * hz ≤ clk) : 0 < incr clk hz := by
  have hdiv : 2 ≤ clk / hz := Int.le_ediv_of_mul_le hhz h
  rw [incr_eq hhz h]
  omega

/-- The clock divided by the threshold is not the clock divided by the period. -/
theorem div_ne_div_succ {n : ℕ} (hclk : clk ≠ 0) (hn : n ≠ 0) :
    (clk : ℚ) / (n : ℤ) / 1000 ≠ clk / (n + 1 : ℕ) / 1000 := by
  intro h
  have hclk' : (clk : ℚ) ≠ 0 := by exact_mod_cast hclk
  have hn' : (n : ℚ) ≠ 0 := by exact_mod_cast hn
  have hsucc : ((n + 1 : ℕ) : ℚ) ≠ 0 := by exact_mod_cast n.succ_ne_zero
  have heq : (clk : ℚ) / n = clk / (n + 1 : ℕ) := by
    have h' := (div_left_inj' (by norm_num : (1000 : ℚ) ≠ 0)).mp h
    exact_mod_cast h'
  rw [div_eq_div_iff hn' hsucc] at heq
  have hcancel := mul_left_cancel₀ hclk' heq
  push_cast at hcancel
  linarith

/-- **It does not divide by zero.** -/
theorem generateCircuit_eq (hhz : 0 < hz) (h : 2 * hz ≤ clk) :
    generateCircuit hz clk =
      some ⟨verilog (incr clk hz), clk / incr clk hz / 1000⟩ := by
  rw [generateCircuit, if_neg hhz.ne', if_neg (incr_pos hhz h).ne']

/-- **The frequency is never that of the circuit.** -/
theorem not_truthful (clk hz : ℤ) (hhz : 0 < hz) (h : 2 * hz ≤ clk) (r : Registers) :
    ¬Truthful clk hz r := by
  rintro ⟨g, hg, P, hP, hkhz⟩
  obtain rfl := Option.some.inj ((generateCircuit_eq hhz h).symm.trans hg)
  have hpos := incr_pos hhz h
  by_cases hlarge : 2 ^ 23 ≤ incr clk hz
  · obtain ⟨-, T, hT⟩ := hP
    refine not_rises hlarge r T ((hT T le_rfl).mpr ?_)
    rw [Nat.sub_self]
    exact Nat.dvd_zero _
  · obtain ⟨n, hn⟩ := Int.eq_ofNat_of_zero_le hpos.le
    rw [hn] at hP hkhz hlarge hpos
    obtain rfl := hP.unique (periodic_of_lt (by omega) (by omega) r)
    refine div_ne_div_succ (n := n) ?_ ?_ hkhz
    · omega
    · omega

/-- A megahertz is asked for. -/
theorem not_truthful_mhz :
    0 < (1000000 : ℤ) ∧ ¬Truthful 48000000 1000000 ⟨0, false⟩ :=
  ⟨by decide, not_truthful 48000000 1000000 (by decide) (by decide) ⟨0, false⟩⟩

/-- The circuit has the period 48, and the frequency returned is 48000 / 47. -/
theorem mhz_untrue : ¬Truthful 48000000 1000000 ⟨0, false⟩ := by
  have hincr : incr 48000000 1000000 = (47 : ℕ) := by
    rw [incr_eq (by decide) (by decide)]
    rfl
  rintro ⟨g, hg, P, hP, hkhz⟩
  obtain rfl := Option.some.inj ((generateCircuit_eq (by decide) (by decide)).symm.trans hg)
  rw [hincr] at hP hkhz
  obtain rfl := hP.unique (periodic_of_lt (by decide) (by decide) _)
  norm_num at hkhz

end UsbipIce.Utils.Circuit
