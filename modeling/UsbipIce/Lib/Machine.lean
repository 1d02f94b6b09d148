import Mathlib.Algebra.BigOperators.Group.List.Basic
import Mathlib.Algebra.Order.Group.Multiset
import Mathlib.Tactic.Abel
import Mathlib.Data.List.Basic

/-!
# Machines driven by inputs, and what holds along their runs

A machine is a partial transition function. Everything that is not fixed by the
program – which thread goes next, what the outside world answers – is an
*input*, so that one list of inputs is one schedule, and quantifying over
schedules is quantifying over lists.

Five things are settled here once, for every machine.

* **Invariants**: what the start satisfies and every step preserves holds at
  the end of every run (`Lib.Machine.invariant`).
* **Guarded runs**: `Lib.Machine.Meets` says that every step of a run is taken
  in a state, and with an input, satisfying a condition. An invariant that only
  such steps preserve holds along such runs (`Lib.Machine.invariant_of_meets`);
  they compose (`Lib.Machine.ReachesBy`).
* **Exact conditions**: when a step out of a good state leads to a good state
  *exactly* when it satisfies the condition, the runs that stay good are the
  guarded ones (`Lib.Machine.along_iff_meets`).
* **Measures**: a measure that every step lowers bounds the length of a run
  (`Lib.Machine.length_add_le_of_run`).
* **Balances**: a quantity that every step changes by a known amount changes by
  the total of these amounts along a run (`Lib.Machine.balance`).
-/

namespace Lib

/-- A machine: `step s i` is the state reached from `s` on input `i`, or `none`
where `s` does not accept `i`. -/
structure Machine (σ ι : Type*) where
  /-- The transition function. -/
  step : σ → ι → Option σ

namespace Machine

variable {σ ι : Type*} (M : Machine σ ι)

/-! ### Runs -/

/-- The state reached on a list of inputs, or `none` where one of them is not
accepted. -/
def run : σ → List ι → Option σ
  | s, [] => some s
  | s, i :: is =>
    match M.step s i with
    | some t => run t is
    | none => none

/-- **Reachability**: some list of inputs leads from one state to the other. -/
def Reaches (s t : σ) : Prop := ∃ is, M.run s is = some t

variable {M}

@[simp] theorem run_nil (s : σ) : M.run s [] = some s := rfl

theorem run_cons {s : σ} {i : ι} {is : List ι} :
    M.run s (i :: is) = (M.step s i).bind fun t => M.run t is := by
  rw [run]
  cases M.step s i <;> rfl

/-- A run peels into its first step and the rest. -/
theorem run_cons_eq_some {s u : σ} {i : ι} {is : List ι} :
    M.run s (i :: is) = some u ↔ ∃ t, M.step s i = some t ∧ M.run t is = some u := by
  rw [run_cons, Option.bind_eq_some_iff]

@[simp] theorem run_append {s : σ} {is js : List ι} :
    M.run s (is ++ js) = (M.run s is).bind fun t => M.run t js := by
  induction is generalizing s with
  | nil => rfl
  | cons i is ih =>
    rw [List.cons_append, run_cons, run_cons]
    cases M.step s i with
    | none => rfl
    | some t => exact ih

@[simp] theorem run_singleton {s : σ} {i : ι} : M.run s [i] = M.step s i := by
  rw [run_cons]
  cases M.step s i <;> rfl

theorem Reaches.refl (s : σ) : M.Reaches s s := ⟨[], rfl⟩

theorem Reaches.tail {s t u : σ} {i : ι} (h : M.Reaches s t) (hi : M.step t i = some u) :
    M.Reaches s u := by
  obtain ⟨is, his⟩ := h
  exact ⟨is ++ [i], by rw [run_append, his, Option.bind_some, run_singleton, hi]⟩

/-! ### Invariants -/

/-- **The invariant rule**: what every step preserves, every run preserves. -/
theorem invariant {I : σ → Prop} (hstep : ∀ s i t, I s → M.step s i = some t → I t)
    {s t : σ} {is : List ι} (hs : I s) (h : M.run s is = some t) : I t := by
  induction is generalizing s with
  | nil =>
    obtain rfl : s = t := Option.some.inj h
    exact hs
  | cons i is ih =>
    obtain ⟨u, hu, hrest⟩ := run_cons_eq_some.mp h
    exact ih (hstep s i u hs hu) hrest

/-- **The measure rule**: a measure that every step lowers pays for the length
of a run. -/
theorem length_add_le_of_run {I : σ → Prop} {f : σ → ℕ}
    (hinv : ∀ s i t, I s → M.step s i = some t → I t)
    (hstep : ∀ s i t, I s → M.step s i = some t → f t < f s) {s t : σ} {is : List ι} (hs : I s)
    (h : M.run s is = some t) : is.length + f t ≤ f s := by
  induction is generalizing s with
  | nil =>
    obtain rfl : s = t := Option.some.inj h
    rw [List.length_nil, Nat.zero_add]
  | cons i is ih =>
    obtain ⟨u, hu, hrest⟩ := run_cons_eq_some.mp h
    have hlt := hstep s i u hs hu
    have hle := ih (hinv s i u hs hu) hrest
    rw [List.length_cons]
    omega

/-- The invariant rule, for reachability. -/
theorem Reaches.invariant {I : σ → Prop} (hstep : ∀ s i t, I s → M.step s i = some t → I t)
    {s t : σ} (hs : I s) (h : M.Reaches s t) : I t := by
  obtain ⟨is, his⟩ := h
  exact Machine.invariant hstep hs his

/-! ### Guarded runs -/

variable (M)

/-- Every step of the run on `is` from `s` is taken in a state and with an
input satisfying `cond`. -/
def Meets (cond : σ → ι → Prop) : σ → List ι → Prop
  | _, [] => True
  | s, i :: is => cond s i ∧ ∀ t, M.step s i = some t → Meets cond t is

/-- Every state of the run on `is` from `s` satisfies `P`, the first and the
last included. -/
def Along (P : σ → Prop) : σ → List ι → Prop
  | s, [] => P s
  | s, i :: is => P s ∧ ∀ t, M.step s i = some t → Along P t is

/-- Whether the steps of a given run meet the condition is decided by taking
them. -/
def decidableMeets (cond : σ → ι → Prop) [∀ s i, Decidable (cond s i)] :
    ∀ (s : σ) (is : List ι), Decidable (M.Meets cond s is)
  | _, [] => isTrue trivial
  | s, i :: is =>
    match h : M.step s i with
    | none => decidable_of_iff (cond s i)
        ⟨fun hc => ⟨hc, fun t ht => absurd (h.symm.trans ht) (Option.some_ne_none t).symm⟩,
          And.left⟩
    | some t =>
      haveI := decidableMeets cond t is
      decidable_of_iff (cond s i ∧ M.Meets cond t is)
        (and_congr_right fun _ => ⟨fun hm _ hu => Option.some.inj (h.symm.trans hu) ▸ hm,
          fun hm => hm t h⟩)

/-- Whether something holds along a given run is decided by taking it. -/
def decidableAlong (P : σ → Prop) [∀ s, Decidable (P s)] :
    ∀ (s : σ) (is : List ι), Decidable (M.Along P s is)
  | s, [] => inferInstanceAs (Decidable (P s))
  | s, i :: is =>
    match h : M.step s i with
    | none => decidable_of_iff (P s)
        ⟨fun hp => ⟨hp, fun t ht => absurd (h.symm.trans ht) (Option.some_ne_none t).symm⟩,
          And.left⟩
    | some t =>
      haveI := decidableAlong P t is
      decidable_of_iff (P s ∧ M.Along P t is)
        (and_congr_right fun _ => ⟨fun hm _ hu => Option.some.inj (h.symm.trans hu) ▸ hm,
          fun hm => hm t h⟩)

variable {M}

instance (cond : σ → ι → Prop) [∀ s i, Decidable (cond s i)] (s : σ) (is : List ι) :
    Decidable (M.Meets cond s is) :=
  M.decidableMeets cond s is

instance (P : σ → Prop) [∀ s, Decidable (P s)] (s : σ) (is : List ι) :
    Decidable (M.Along P s is) :=
  M.decidableAlong P s is

theorem Meets.mono {cond cond' : σ → ι → Prop} (himp : ∀ s i, cond s i → cond' s i) {s : σ}
    {is : List ι} (h : M.Meets cond s is) : M.Meets cond' s is := by
  induction is generalizing s with
  | nil => trivial
  | cons i is ih => exact ⟨himp s i h.1, fun t ht => ih (h.2 t ht)⟩

theorem Meets.and {cond cond' : σ → ι → Prop} {s : σ} {is : List ι} (h : M.Meets cond s is)
    (h' : M.Meets cond' s is) : M.Meets (fun s i => cond s i ∧ cond' s i) s is := by
  induction is generalizing s with
  | nil => trivial
  | cons i is ih => exact ⟨⟨h.1, h'.1⟩, fun t ht => ih (h.2 t ht) (h'.2 t ht)⟩

/-- A guarded run peels into its first step and the rest. -/
theorem meets_cons {cond : σ → ι → Prop} {s t : σ} {i : ι} {is : List ι} (h : M.step s i = some t) :
    M.Meets cond s (i :: is) ↔ cond s i ∧ M.Meets cond t is := by
  refine and_congr_right fun _ => ⟨fun hm => hm t h, fun hm u hu => ?_⟩
  obtain rfl : t = u := Option.some.inj (h.symm.trans hu)
  exact hm

/-- A run is guarded where both its parts are. -/
theorem meets_append {cond : σ → ι → Prop} {s : σ} {is js : List ι} :
    M.Meets cond s (is ++ js) ↔
      M.Meets cond s is ∧ ∀ t, M.run s is = some t → M.Meets cond t js := by
  induction is generalizing s with
  | nil => simp [Meets]
  | cons i is ih =>
    simp only [List.cons_append, Meets, ih, run_cons_eq_some]
    constructor
    · rintro ⟨hc, h⟩
      exact ⟨⟨hc, fun t ht => (h t ht).1⟩, fun u ⟨t, ht, hu⟩ => (h t ht).2 u hu⟩
    · rintro ⟨⟨hc, h⟩, hrest⟩
      exact ⟨hc, fun t ht => ⟨h t ht, fun u hu => hrest u ⟨t, ht, hu⟩⟩⟩

/-- A run is guarded where each of its steps is, judged at the end of the run
before it. -/
theorem meets_iff {cond : σ → ι → Prop} {s : σ} {is : List ι} :
    M.Meets cond s is ↔ ∀ js i t, js ++ [i] <+: is → M.run s js = some t → cond t i := by
  constructor
  · rintro h js i t ⟨ks, rfl⟩ ht
    rw [meets_append, meets_append] at h
    exact (h.1.2 t ht).1
  · intro h
    induction is generalizing s with
    | nil => trivial
    | cons i is ih =>
      refine ⟨h [] i s (by simp) rfl, fun t ht => ih fun js j u hjs hu => ?_⟩
      exact h (i :: js) j u (List.cons_prefix_cons.mpr ⟨rfl, hjs⟩)
        (run_cons_eq_some.mpr ⟨t, ht, hu⟩)

/-- **The guarded invariant rule**: along a run whose steps all meet the
condition, only steps meeting it have to preserve the invariant. -/
theorem invariant_of_meets {I : σ → Prop} {cond : σ → ι → Prop}
    (hstep : ∀ s i t, I s → cond s i → M.step s i = some t → I t) {s t : σ} {is : List ι}
    (hs : I s) (hm : M.Meets cond s is) (h : M.run s is = some t) : I t := by
  induction is generalizing s with
  | nil =>
    obtain rfl : s = t := Option.some.inj h
    exact hs
  | cons i is ih =>
    obtain ⟨u, hu, hrest⟩ := run_cons_eq_some.mp h
    exact ih (hstep s i u hs hm.1 hu) (hm.2 u hu) hrest

/-- Along a guarded run, whatever the invariant and the condition imply of a
step holds of every step. -/
theorem meets_of_meets {I : σ → Prop} {cond cond' : σ → ι → Prop}
    (hstep : ∀ s i t, I s → cond s i → M.step s i = some t → I t)
    (himp : ∀ s i, I s → cond s i → cond' s i) {s : σ} {is : List ι} (hs : I s)
    (hm : M.Meets cond s is) : M.Meets cond' s is := by
  induction is generalizing s with
  | nil => trivial
  | cons i is ih =>
    exact ⟨himp s i hs hm.1, fun t ht => ih (hstep s i t hs hm.1 ht) (hm.2 t ht)⟩

variable (M) in
/-- **Guarded reachability**: some guarded run leads from one state to the
other. -/
def ReachesBy (cond : σ → ι → Prop) (s t : σ) : Prop :=
  ∃ is, M.run s is = some t ∧ M.Meets cond s is

theorem ReachesBy.refl {cond : σ → ι → Prop} (s : σ) : M.ReachesBy cond s s :=
  ⟨[], rfl, trivial⟩

theorem ReachesBy.head {cond : σ → ι → Prop} {s t u : σ} {i : ι} (hc : cond s i)
    (hi : M.step s i = some t) (h : M.ReachesBy cond t u) : M.ReachesBy cond s u := by
  obtain ⟨is, his, hm⟩ := h
  refine ⟨i :: is, run_cons_eq_some.mpr ⟨t, hi, his⟩, hc, fun t' ht' => ?_⟩
  obtain rfl : t = t' := Option.some.inj (hi.symm.trans ht')
  exact hm

theorem ReachesBy.trans {cond : σ → ι → Prop} {s t u : σ} (h : M.ReachesBy cond s t)
    (h' : M.ReachesBy cond t u) : M.ReachesBy cond s u := by
  obtain ⟨is, his, hm⟩ := h
  induction is generalizing s with
  | nil =>
    obtain rfl : s = t := Option.some.inj his
    exact h'
  | cons i is ih =>
    obtain ⟨v, hv, hrest⟩ := run_cons_eq_some.mp his
    exact ReachesBy.head hm.1 hv (ih hrest (hm.2 v hv))

/-- **The backward rule**: a property that every guarded step leads back, under
an invariant, is led back by every guarded run. -/
theorem ReachesBy.reflects {I P : σ → Prop} {cond : σ → ι → Prop}
    (hinv : ∀ s i t, I s → M.step s i = some t → I t)
    (hback : ∀ s i t, I s → cond s i → M.step s i = some t → P t → P s) {s t : σ} (hs : I s)
    (h : M.ReachesBy cond s t) (ht : P t) : P s := by
  obtain ⟨is, his, hm⟩ := h
  induction is generalizing s with
  | nil =>
    obtain rfl : s = t := Option.some.inj his
    exact ht
  | cons i is ih =>
    obtain ⟨u, hu, hrest⟩ := run_cons_eq_some.mp his
    exact hback s i u hs hm.1 hu (ih (hinv s i u hs hu) hrest (hm.2 u hu))

theorem ReachesBy.mono {cond cond' : σ → ι → Prop} (himp : ∀ s i, cond s i → cond' s i) {s t : σ}
    (h : M.ReachesBy cond s t) : M.ReachesBy cond' s t := by
  obtain ⟨is, his, hm⟩ := h
  exact ⟨is, his, hm.mono himp⟩

theorem Along.head {P : σ → Prop} {s : σ} {is : List ι} (h : M.Along P s is) : P s := by
  cases is with
  | nil => exact h
  | cons i is => exact h.1

theorem Along.mono {P Q : σ → Prop} (himp : ∀ s, P s → Q s) {s : σ} {is : List ι}
    (h : M.Along P s is) : M.Along Q s is := by
  induction is generalizing s with
  | nil => exact himp s h
  | cons i is ih => exact ⟨himp s h.1, fun t ht => ih (h.2 t ht)⟩

/-- What holds along a run holds before and after each of its steps. -/
theorem Along.meets {P : σ → Prop} {s : σ} {is : List ι} (h : M.Along P s is) :
    M.Meets (fun s i => P s ∧ ∀ t, M.step s i = some t → P t) s is := by
  induction is generalizing s with
  | nil => trivial
  | cons i is ih => exact ⟨⟨h.1, fun t ht => (h.2 t ht).head⟩, fun t ht => ih (h.2 t ht)⟩

/-- What holds along a run holds where each of its prefixes ends. -/
theorem along_iff {P : σ → Prop} {s : σ} {is : List ι} :
    M.Along P s is ↔ ∀ js t, js <+: is → M.run s js = some t → P t := by
  induction is generalizing s with
  | nil =>
    constructor
    · intro h js t hjs ht
      obtain rfl : js = [] := List.prefix_nil.mp hjs
      obtain rfl : s = t := Option.some.inj ht
      exact h
    · intro h
      exact h [] s List.nil_prefix rfl
  | cons i is ih =>
    constructor
    · intro h js t hjs ht
      cases js with
      | nil =>
        obtain rfl : s = t := Option.some.inj ht
        exact h.1
      | cons j js =>
        obtain ⟨rfl, hjs'⟩ := List.cons_prefix_cons.mp hjs
        obtain ⟨u, hu, hrest⟩ := run_cons_eq_some.mp ht
        exact ih.mp (h.2 u hu) js t hjs' hrest
    · intro h
      refine ⟨h [] s List.nil_prefix rfl, fun u hu => ih.mpr fun js t hjs ht => ?_⟩
      exact h (i :: js) t (List.cons_prefix_cons.mpr ⟨rfl, hjs⟩)
        (run_cons_eq_some.mpr ⟨u, hu, ht⟩)

/-- What holds along a run holds at its end. -/
theorem Along.last {P : σ → Prop} {s t : σ} {is : List ι} (h : M.Along P s is)
    (hrun : M.run s is = some t) : P t :=
  along_iff.mp h is t (List.prefix_refl is) hrun

/-- What an invariant implies holds along the guarded runs that preserve it. -/
theorem along_of_meets {I P : σ → Prop} {cond : σ → ι → Prop}
    (hstep : ∀ s i t, I s → cond s i → M.step s i = some t → I t) (himp : ∀ s, I s → P s) {s : σ}
    {is : List ι} (hs : I s) (hm : M.Meets cond s is) : M.Along P s is := by
  induction is generalizing s with
  | nil => exact himp s hs
  | cons i is ih => exact ⟨himp s hs, fun t ht => ih (hstep s i t hs hm.1 ht) (hm.2 t ht)⟩

/-- **The exact-condition rule, along guarded runs**: when a guarded step out of
a state satisfying `P` leads to a state satisfying `P` exactly when it meets
`cond`, the guarded runs that stay in `P` are exactly those whose steps all meet
`cond`. The step may be judged under an invariant `I` that every guarded step
preserves. -/
theorem along_iff_meets_of_meets {I P : σ → Prop} {guard cond : σ → ι → Prop}
    (hinv : ∀ s i t, I s → guard s i → M.step s i = some t → I t)
    (hstep : ∀ s i t, I s → guard s i → P s → M.step s i = some t → (P t ↔ cond s i))
    (htotal : ∀ s i, I s → M.step s i = none → cond s i) {s : σ} (hI : I s) (hs : P s)
    {is : List ι} (hg : M.Meets guard s is) :
    M.Along P s is ↔ M.Meets cond s is := by
  induction is generalizing s with
  | nil => exact ⟨fun _ => trivial, fun _ => hs⟩
  | cons i is ih =>
    constructor
    · intro h
      cases hi : M.step s i with
      | none => exact ⟨htotal s i hI hi, fun t ht => by rw [hi] at ht; cases ht⟩
      | some u =>
        have hu : P u := (h.2 u hi).head
        refine ⟨(hstep s i u hI hg.1 hs hi).mp hu, fun t ht => ?_⟩
        obtain rfl : u = t := Option.some.inj (hi.symm.trans ht)
        exact (ih (hinv s i u hI hg.1 hi) hu (hg.2 u hi)).mp (h.2 u hi)
    · intro h
      refine ⟨hs, fun u hu => ?_⟩
      have hPu : P u := (hstep s i u hI hg.1 hs hu).mpr h.1
      exact (ih (hinv s i u hI hg.1 hu) hPu (hg.2 u hu)).mpr (h.2 u hu)

/-- Every run is guarded by a condition that always holds. -/
theorem meets_of_forall {guard : σ → ι → Prop} (h : ∀ s i, guard s i) (s : σ) (is : List ι) :
    M.Meets guard s is := by
  induction is generalizing s with
  | nil => trivial
  | cons i is ih => exact ⟨h s i, fun t _ => ih t⟩

/-- Every run is guarded by what holds of its inputs. -/
theorem meets_of_mem {guard : ι → Prop} {is : List ι} (h : ∀ i ∈ is, guard i) (s : σ) :
    M.Meets (fun _ i => guard i) s is := by
  induction is generalizing s with
  | nil => trivial
  | cons i is ih =>
    obtain ⟨hi, his⟩ := List.forall_mem_cons.mp h
    exact ⟨hi, fun t _ => ih his t⟩

/-- **The exact-condition rule**, along all runs. -/
theorem along_iff_meets {I P : σ → Prop} {cond : σ → ι → Prop}
    (hinv : ∀ s i t, I s → M.step s i = some t → I t)
    (hstep : ∀ s i t, I s → P s → M.step s i = some t → (P t ↔ cond s i))
    (htotal : ∀ s i, M.step s i = none → cond s i) {s : σ} (hI : I s) (hs : P s) {is : List ι} :
    M.Along P s is ↔ M.Meets cond s is :=
  along_iff_meets_of_meets (fun s i t hI _ => hinv s i t hI)
    (fun s i t hI _ hs => hstep s i t hI hs) (fun s i _ => htotal s i) hI hs
    (meets_of_forall (fun _ _ => trivial) s is)

/-! ### Balances -/

section Balance

variable {β : Type*} [AddCommMonoid β]

variable (M) in
/-- The total of an amount over the steps of a run. -/
def total (amount : σ → ι → β) : σ → List ι → β
  | _, [] => 0
  | s, i :: is =>
    match M.step s i with
    | some t => amount s i + total amount t is
    | none => 0

theorem total_cons {amount : σ → ι → β} {s t : σ} {i : ι} {is : List ι}
    (h : M.step s i = some t) :
    M.total amount s (i :: is) = amount s i + M.total amount t is := by
  rw [total, h]

/-- **The balance rule**: where every step adds to `f` what it adds to `g` and
a known amount besides, a run does so with the total amount. -/
theorem balance (f g : σ → β) (amount : σ → ι → β)
    (hstep : ∀ s i t, M.step s i = some t → f t + g s = f s + g t + amount s i)
    [IsCancelAdd β] {s t : σ} {is : List ι} (h : M.run s is = some t) :
    f t + g s = f s + g t + M.total amount s is := by
  induction is generalizing s with
  | nil =>
    obtain rfl : s = t := Option.some.inj h
    rw [total, add_zero]
  | cons i is ih =>
    obtain ⟨u, hu, hrest⟩ := run_cons_eq_some.mp h
    have h₁ := hstep s i u hu
    have h₂ := ih hrest
    rw [total_cons hu]
    refine add_left_cancel (a := f u + g u) ?_
    calc f u + g u + (f t + g s) = (f u + g s) + (f t + g u) := by abel
      _ = (f s + g u + amount s i) + (f u + g t + M.total amount u is) := by rw [h₁, h₂]
      _ = f u + g u + (f s + g t + (amount s i + M.total amount u is)) := by abel

/-- What holds of all that the steps contribute holds of the total. -/
theorem forall_mem_total {α : Type*} {amount : σ → ι → Multiset α} {P : α → Prop} {s : σ}
    {is : List ι} (h : M.Meets (fun s i => ∀ x ∈ amount s i, P x) s is) :
    ∀ x ∈ M.total amount s is, P x := by
  induction is generalizing s with
  | nil => exact fun x hx => absurd hx (Multiset.notMem_zero x)
  | cons i is ih =>
    cases hi : M.step s i with
    | none =>
      rw [total, hi]
      exact fun x hx => absurd hx (Multiset.notMem_zero x)
    | some t =>
      intro x hx
      rw [total_cons hi] at hx
      rcases Multiset.mem_add.mp hx with hx | hx
      · exact h.1 x hx
      · exact ih (h.2 t hi) x hx

/-- A total of multisets is empty exactly when every step contributes
nothing. -/
theorem total_eq_zero_iff {α : Type*} {amount : σ → ι → Multiset α} {s t : σ} {is : List ι}
    (h : M.run s is = some t) :
    M.total amount s is = 0 ↔ M.Meets (fun s i => amount s i = 0) s is := by
  induction is generalizing s with
  | nil => exact iff_of_true rfl trivial
  | cons i is ih =>
    obtain ⟨u, hu, hrest⟩ := run_cons_eq_some.mp h
    rw [total_cons hu, ← Multiset.card_eq_zero, Multiset.card_add, Nat.add_eq_zero_iff,
      Multiset.card_eq_zero, Multiset.card_eq_zero, ih hrest]
    refine and_congr_right fun _ => ⟨fun hm v hv => ?_, fun hm => hm u hu⟩
    obtain rfl : u = v := Option.some.inj (hu.symm.trans hv)
    exact hm

end Balance

end Machine

end Lib
