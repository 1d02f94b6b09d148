import Mathlib.Data.Int.Notation
import Mathlib.Logic.Function.Basic
import UsbipIce.Lib.Machine

/-!
# Leases

Leases on a clock. A lease that is granted, or renewed while it is held, lasts
for a fixed duration; it is taken only by a *sweep*, which takes all those that
have run out. Time passes between the steps, so a lease can be held long after it
has run out.

Two things are known of a lease from its history alone. It is held all along a
run exactly when every sweep of the run finds it renewed in time
(`Lib.Lease.along_held_iff`). And where it can be granted anew, it has run out
(`Lib.Lease.lapsed_of_grant`): nothing but a sweep ends it.
-/

namespace Lib

/-- Leases on a clock, with their history. -/
structure Lease (κ : Type*) where
  now : ℤ
  /-- When each lease was last granted or renewed, where it is held. -/
  held : κ → Option ℤ
  /-- When each lease was last granted or renewed, held or not. -/
  last : κ → Option ℤ

/-- What happens to leases. -/
inductive LeaseInput (κ : Type*) where
  | tick (d : ℕ)
  | grant (k : κ)
  | renew (k : κ)
  | sweep

namespace Lease

variable {κ : Type*} {duration : ℤ} {s t : Lease κ} {k : κ}

/-- Leases without a history, those that are held apart. -/
def start (now : ℤ) (held : κ → Option ℤ) : Lease κ := ⟨now, held, held⟩

/-- **What the history says**: it is past, a lease that is held is as old as its
last renewal, and one that is not held has run out. -/
structure Dated (duration : ℤ) (s : Lease κ) : Prop where
  past : ∀ k, ∀ u ∈ s.last k, u ≤ s.now
  held : ∀ k, ∀ u ∈ s.held k, s.last k = some u
  lapsed : ∀ k, s.held k = none → ∀ u ∈ s.last k, u < s.now - duration

theorem dated_start {now : ℤ} {held : κ → Option ℤ} (h : ∀ k, ∀ u ∈ held k, u ≤ now) :
    Dated duration (start now held) where
  past := h
  held := fun _ _ hu => hu
  lapsed := by
    intro k hk u hu
    have hu : held k = some u := hu
    rw [show held k = none from hk] at hu
    cases hu

variable [DecidableEq κ]

/-- A lease lasts from now on. -/
def touch (s : Lease κ) (k : κ) : Lease κ where
  now := s.now
  held := Function.update s.held k (some s.now)
  last := Function.update s.last k (some s.now)

@[simp] theorem touch_now (s : Lease κ) (k : κ) : (s.touch k).now = s.now := rfl

@[simp] theorem touch_held (s : Lease κ) (k j : κ) :
    (s.touch k).held j = if j = k then some s.now else s.held j :=
  Function.update_apply _ _ _ _

@[simp] theorem touch_last (s : Lease κ) (k j : κ) :
    (s.touch k).last j = if j = k then some s.now else s.last j :=
  Function.update_apply _ _ _ _

/-- One step; a lease is granted where it is not held, and renewed where it is. -/
def step (duration : ℤ) (s : Lease κ) : LeaseInput κ → Option (Lease κ)
  | .tick d => some { s with now := s.now + d }
  | .grant k => if s.held k = none then some (s.touch k) else none
  | .renew k => if s.held k = none then none else some (s.touch k)
  | .sweep => some { s with held := fun k => (s.held k).filter fun u => ¬u < s.now - duration }

/-- Leases as a machine. -/
def machine (κ : Type*) [DecidableEq κ] (duration : ℤ) : Machine (Lease κ) (LeaseInput κ) :=
  ⟨step duration⟩

theorem Dated.touch (h : s.Dated duration) (k : κ) : (s.touch k).Dated duration where
  past := by
    intro j u hu
    rw [touch_last] at hu
    split at hu
    · exact (Option.some.inj hu).ge
    · exact h.past j u hu
  held := by
    intro j u hu
    rw [touch_held] at hu
    rw [touch_last]
    split at hu
    · rwa [if_pos ‹_›]
    · rw [if_neg ‹_›]
      exact h.held j u hu
  lapsed := by
    intro j hj u hu
    rw [touch_held] at hj
    rw [touch_last] at hu
    split at hj
    · cases hj
    · rw [if_neg ‹_›] at hu
      exact h.lapsed j hj u hu

theorem dated_step {i : LeaseInput κ} (h : s.Dated duration) (hstep : s.step duration i = some t) :
    t.Dated duration := by
  cases i with
  | tick d =>
    obtain rfl := Option.some.inj hstep
    refine ⟨fun j u hu => ?_, h.held, fun j hj u hu => ?_⟩
    · have hpast := h.past j u hu
      dsimp only
      omega
    · have hlapsed := h.lapsed j hj u hu
      dsimp only
      omega
  | grant k =>
    rw [step] at hstep
    split at hstep
    · obtain rfl := Option.some.inj hstep
      exact h.touch k
    · cases hstep
  | renew k =>
    rw [step] at hstep
    split at hstep
    · cases hstep
    · obtain rfl := Option.some.inj hstep
      exact h.touch k
  | sweep =>
    obtain rfl := Option.some.inj hstep
    refine ⟨h.past, fun j u hu => h.held j u (Option.mem_filter_iff.mp hu).1, fun j hj u hu => ?_⟩
    cases hheld : s.held j with
    | none => exact h.lapsed j hheld u hu
    | some v =>
      -- it was held, so it is this sweep that has taken it
      obtain rfl := Option.some.inj (Eq.trans (Eq.symm hu) (h.held j v hheld))
      by_contra hlive
      have hkept : u ∈ (s.held j).filter fun u => ¬u < s.now - duration :=
        Option.mem_filter_iff.mpr ⟨hheld, decide_eq_true hlive⟩
      rw [show (s.held j).filter (fun u => ¬u < s.now - duration) = none from hj] at hkept
      cases hkept

/-- **A lease is granted anew only when it has run out.** -/
theorem lapsed_of_grant (h : s.Dated duration) (hstep : s.step duration (.grant k) = some t) :
    ∀ u ∈ s.last k, u < s.now - duration := by
  rw [step] at hstep
  split at hstep
  · exact h.lapsed k ‹_›
  · cases hstep

/-- A sweep finds the lease renewed in time. -/
def Timely (duration : ℤ) (k : κ) (s : Lease κ) : LeaseInput κ → Prop
  | .sweep => ∀ u ∈ s.last k, s.now - duration ≤ u
  | .tick _ | .grant _ | .renew _ => True

/-- What is granted or renewed is held. -/
theorem isSome_held_touch (s : Lease κ) (j : κ) (h : (s.held k).isSome) :
    ((s.touch j).held k).isSome := by
  rw [touch_held]
  split
  · rfl
  · exact h

/-- **A lease that is held stays held exactly as long as the sweeps are
timely.** -/
theorem along_held_iff (h : s.Dated duration) (hheld : (s.held k).isSome)
    {is : List (LeaseInput κ)} :
    (machine κ duration).Along (fun s => (s.held k).isSome) s is ↔
      (machine κ duration).Meets (Timely duration k) s is := by
  refine Machine.along_iff_meets (I := Dated duration) (fun _ _ _ => dated_step) ?_ ?_ h hheld
  · intro s i t hdated hs hstep
    have hstep : s.step duration i = some t := hstep
    cases i with
    | tick d =>
      obtain rfl := Option.some.inj hstep
      exact iff_of_true hs trivial
    | grant j =>
      rw [step] at hstep
      split at hstep
      · obtain rfl := Option.some.inj hstep
        exact iff_of_true (isSome_held_touch s j hs) trivial
      · cases hstep
    | renew j =>
      rw [step] at hstep
      split at hstep
      · cases hstep
      · obtain rfl := Option.some.inj hstep
        exact iff_of_true (isSome_held_touch s j hs) trivial
    | sweep =>
      obtain rfl := Option.some.inj hstep
      obtain ⟨u, hu⟩ := Option.isSome_iff_exists.mp hs
      have hkept : ((s.held k).filter fun u => ¬u < s.now - duration).isSome ↔
          s.now - duration ≤ u := by
        rw [hu, Option.isSome_filter]
        simp
      refine hkept.trans ⟨fun hle v hv => ?_, fun htimely => htimely u (hdated.held k u hu)⟩
      rwa [Option.some.inj (Eq.trans (Eq.symm hv) (hdated.held k u hu))]
  · intro s i hnone
    cases i with
    | sweep => cases hnone
    | tick d => trivial
    | grant j => trivial
    | renew j => trivial

end Lease

end Lib
