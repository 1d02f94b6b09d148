import Mathlib.Data.List.Forall2
import UsbipIce.Lib.Machine

/-!
# Refinements

A machine refines another when each of its states stands for a state of the
other, and each of its steps for one step of the other or for none
(`Lib.Refinement`). A run then stands for a run, its *trace*: it leads to the
states that the states stand for (`Lib.Refinement.run_trace`), what holds along
the one holds along the other (`Lib.Refinement.along_trace`), and so do the
conditions on their steps (`Lib.Refinement.meets_trace`). So what is proved of
the abstract machine is read off for the concrete one.

Where a state does not say which state of the other machine it stands for, or a
step is several steps there, a relation takes the place of the function
(`Lib.Machine.Simulates`), and a run leads to a state that is related to where
some run of the other machine leads (`Lib.Machine.Simulates.run`).
-/

namespace Lib

/-- **A refinement** of `N` by `M`. -/
structure Refinement {σ ι τ κ : Type*} (M : Machine σ ι) (N : Machine τ κ) where
  /-- What a state stands for. -/
  abs : σ → τ
  /-- What a step stands for. -/
  input : σ → ι → Option κ
  /-- A step leads to what the step it stands for leads to. -/
  run_input : ∀ s i t, M.step s i = some t → N.run (abs s) (input s i).toList = some (abs t)

namespace Refinement

variable {σ ι τ κ : Type*} {M : Machine σ ι} {N : Machine τ κ} (R : Refinement M N)

/-- What a run stands for. -/
def trace : σ → List ι → List κ
  | _, [] => []
  | s, i :: is =>
    match M.step s i with
    | some t => (R.input s i).toList ++ trace t is
    | none => []

variable {R}

theorem trace_cons {s t : σ} {i : ι} (h : M.step s i = some t) (is : List ι) :
    R.trace s (i :: is) = (R.input s i).toList ++ R.trace t is := by
  rw [trace, h]

@[simp] theorem trace_cons_of_none {s : σ} {i : ι} (h : M.step s i = none) (is : List ι) :
    R.trace s (i :: is) = [] := by
  rw [trace, h]

/-- What holds of every step that an input may stand for holds of the trace. -/
theorem forall_mem_trace {P : κ → Prop} {s : σ} {is : List ι}
    (h : ∀ i ∈ is, ∀ s, ∀ j ∈ R.input s i, P j) : ∀ j ∈ R.trace s is, P j := by
  induction is generalizing s with
  | nil => exact fun _ hj => absurd hj List.not_mem_nil
  | cons i is ih =>
    intro j hj
    cases hi : M.step s i with
    | none =>
      rw [trace_cons_of_none hi] at hj
      cases hj
    | some t =>
      rw [trace_cons hi] at hj
      rcases List.mem_append.mp hj with hj | hj
      · exact h i List.mem_cons_self s j (Option.mem_toList.mp hj)
      · exact ih (fun i' hi' => h i' (List.mem_cons_of_mem _ hi')) j hj

/-- **A run leads to what its trace leads to.** -/
theorem run_trace {s t : σ} {is : List ι} (h : M.run s is = some t) :
    N.run (R.abs s) (R.trace s is) = some (R.abs t) := by
  induction is generalizing s with
  | nil =>
    obtain rfl : s = t := Option.some.inj h
    rfl
  | cons i is ih =>
    obtain ⟨u, hu, hrest⟩ := Machine.run_cons_eq_some.mp h
    simpa [trace_cons hu, R.run_input s i u hu] using ih hrest

theorem reaches {s t : σ} (h : M.Reaches s t) : N.Reaches (R.abs s) (R.abs t) := by
  obtain ⟨is, his⟩ := h
  exact ⟨R.trace s is, run_trace his⟩

/-- A step that stands for none stays with what its state stands for. -/
theorem abs_eq_of_input {s t : σ} {i : ι} (h : M.step s i = some t) (hi : R.input s i = none) :
    R.abs s = R.abs t := by
  have hrun := R.run_input s i t h
  rw [hi] at hrun
  exact Option.some.inj hrun

/-- A step that stands for one is that step. -/
theorem step_of_input {s t : σ} {i : ι} {j : κ} (h : M.step s i = some t)
    (hi : R.input s i = some j) : N.step (R.abs s) j = some (R.abs t) := by
  have hrun := R.run_input s i t h
  rwa [hi, Option.toList_some, Machine.run_singleton] at hrun

/-- **What holds along a trace holds along the run.** -/
@[simp] theorem along_trace {P : τ → Prop} {s : σ} {is : List ι} :
    N.Along P (R.abs s) (R.trace s is) ↔ M.Along (fun s => P (R.abs s)) s is := by
  induction is generalizing s with
  | nil => rfl
  | cons i is ih =>
    cases hi : M.step s i with
    | none =>
      rw [trace_cons_of_none hi]
      exact ⟨fun h => ⟨h, fun t ht => by rw [hi] at ht; cases ht⟩, fun h => h.1⟩
    | some t =>
      have hrun : M.Along (fun s => P (R.abs s)) s (i :: is) ↔
          P (R.abs s) ∧ M.Along (fun s => P (R.abs s)) t is :=
        and_congr_right fun _ => ⟨fun h => h t hi, fun h u hu =>
          Option.some.inj (hi.symm.trans hu) ▸ h⟩
      rw [hrun, trace_cons hi, ← ih]
      cases hj : R.input s i with
      | none =>
        rw [abs_eq_of_input hi hj]
        exact ⟨fun h => ⟨h.head, h⟩, And.right⟩
      | some j =>
        have hstep := step_of_input hi hj
        exact and_congr_right fun _ => ⟨fun h => h _ hstep, fun h u hu =>
          Option.some.inj (hstep.symm.trans hu) ▸ h⟩

/-- **A trace is guarded where each step of the run stands for one that meets the
condition.** -/
theorem meets_trace {cond : τ → κ → Prop} {s : σ} {is : List ι} :
    N.Meets cond (R.abs s) (R.trace s is) ↔
      M.Meets (fun s i => (M.step s i).isSome → ∀ j ∈ R.input s i, cond (R.abs s) j) s is := by
  induction is generalizing s with
  | nil => rfl
  | cons i is ih =>
    cases hi : M.step s i with
    | none =>
      rw [trace_cons_of_none hi]
      refine iff_of_true trivial ⟨fun h => ?_, fun t ht => ?_⟩
      · rw [hi] at h
        cases h
      · rw [hi] at ht
        cases ht
    | some t =>
      have htaken : ((M.step s i).isSome → ∀ j ∈ R.input s i, cond (R.abs s) j) ↔
          ∀ j ∈ R.input s i, cond (R.abs s) j := by
        rw [hi]
        exact ⟨fun h => h rfl, fun h _ => h⟩
      rw [Machine.meets_cons hi, trace_cons hi, ← ih, htaken]
      cases hj : R.input s i with
      | none =>
        rw [abs_eq_of_input hi hj]
        exact ⟨fun h => ⟨fun j hj' => absurd hj' (Option.not_mem_none j), h⟩, And.right⟩
      | some j =>
        rw [Option.toList_some, List.singleton_append, Machine.meets_cons (step_of_input hi hj)]
        exact and_congr_left fun _ => ⟨fun h j' hj' => Option.some.inj hj' ▸ h, fun h => h j rfl⟩

end Refinement

/-! ### Simulations -/

namespace Machine

variable {σ ι τ κ : Type*}

/-- **A simulation** of `M` by `N`: a step out of related states leads to related
states, with as many steps of `N` as it takes. -/
def Simulates (M : Machine σ ι) (N : Machine τ κ) (R : σ → τ → Prop) : Prop :=
  ∀ s i s' t, R s t → M.step s i = some s' → ∃ js t', N.run t js = some t' ∧ R s' t'

variable {M : Machine σ ι} {N : Machine τ κ} {R : σ → τ → Prop}

/-- **A run leads to what some run leads to.** -/
theorem Simulates.run (hsim : M.Simulates N R) {s s' : σ} {t : τ} {is : List ι} (hR : R s t)
    (h : M.run s is = some s') : ∃ js t', N.run t js = some t' ∧ R s' t' := by
  induction is generalizing s t with
  | nil =>
    obtain rfl : s = s' := Option.some.inj h
    exact ⟨[], t, rfl, hR⟩
  | cons i is ih =>
    obtain ⟨u, hu, hrest⟩ := run_cons_eq_some.mp h
    obtain ⟨js, v, hjs, hv⟩ := hsim s i u t hR hu
    obtain ⟨ks, t', hks, ht'⟩ := ih hv hrest
    refine ⟨js ++ ks, t', ?_, ht'⟩
    simp [hjs, hks]

end Machine

/-! ### Components that are related one by one -/

section Components

variable {α β : Type*} {R : α → β → Prop} {l : List α} {l' : List β}

theorem exists_getElem?_of_forall₂ (h : List.Forall₂ R l l') {k : ℕ} {a : α}
    (hk : l[k]? = some a) : ∃ b, l'[k]? = some b ∧ R a b := by
  induction h generalizing k with
  | nil => cases hk
  | cons hab _ ih =>
    cases k with
    | zero =>
      obtain rfl := Option.some.inj hk
      exact ⟨_, rfl, hab⟩
    | succ k => exact ih hk

/-- Two components change together. -/
theorem forall₂_set (h : List.Forall₂ R l l') (k : ℕ) {a : α} {b : β} (hab : R a b) :
    List.Forall₂ R (l.set k a) (l'.set k b) := by
  induction h generalizing k with
  | nil => exact List.Forall₂.nil
  | cons hcd hrest ih =>
    cases k with
    | zero => exact List.Forall₂.cons hab hrest
    | succ k => exact List.Forall₂.cons hcd (ih k)

/-- Two components are added. -/
theorem forall₂_concat (h : List.Forall₂ R l l') {a : α} {b : β} (hab : R a b) :
    List.Forall₂ R (l ++ [a]) (l' ++ [b]) :=
  List.rel_append h (List.Forall₂.cons hab List.Forall₂.nil)

end Components

end Lib
