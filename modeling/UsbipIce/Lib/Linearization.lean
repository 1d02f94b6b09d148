import Mathlib.Data.List.Basic

/-!
# C3 linearization

The order in which Python looks through a class and its ancestors. The orders of
the bases and the list of the bases themselves are merged: again and again the
first of their heads that is in no tail is put next and taken away where it is a
head. A merge that gets stuck has no result; the class cannot be made
(`Lib.Merges`).

A merge has the elements that it merges (`Lib.Merges.mem_iff`), and the order of
a class with one base is that of the base, behind the class
(`Lib.Merges.eq_of_base`).
-/

namespace Lib

variable {α : Type*} [DecidableEq α]

/-- The first of the heads that is in no tail. -/
def candidate? (ls : List (List α)) : Option α :=
  (ls.filterMap List.head?).find? fun c => ls.all fun l => decide (c ∉ l.tail)

/-- A list without its head, where that is `c`. -/
def dropHead (c : α) (l : List α) : List α := if l.head? = some c then l.tail else l

/-- **Merging**: the lists leave the result. -/
inductive Merges : List (List α) → List α → Prop
  | nil {ls : List (List α)} (h : ∀ l ∈ ls, l = []) : Merges ls []
  | cons {ls : List (List α)} {c : α} {l : List α} (hc : candidate? ls = some c)
      (h : Merges (ls.map (dropHead c)) l) : Merges ls (c :: l)

/-- The candidate is one of the heads. -/
theorem exists_of_candidate? {ls : List (List α)} {c : α} (h : candidate? ls = some c) :
    ∃ l ∈ ls, l.head? = some c :=
  List.mem_filterMap.mp (List.mem_of_find?_eq_some h)

theorem mem_dropHead {c x : α} {l : List α} (h : x ≠ c) : x ∈ dropHead c l ↔ x ∈ l := by
  rw [dropHead]
  split
  · rename_i hhead
    obtain ⟨l, rfl⟩ := List.head?_eq_some_iff.mp hhead
    rw [List.tail_cons, List.mem_cons, or_iff_right h]
  · rfl

/-- **A merge has the elements of the lists.** -/
theorem Merges.mem_iff {ls : List (List α)} {l : List α} (h : Merges ls l) {x : α} :
    x ∈ l ↔ ∃ l' ∈ ls, x ∈ l' := by
  induction h with
  | nil h =>
    constructor
    · intro hx
      cases hx
    · rintro ⟨l', hl', hx⟩
      rw [h l' hl'] at hx
      cases hx
  | @cons ls c l hc _ ih =>
    rw [List.mem_cons, ih]
    constructor
    · rintro (rfl | ⟨l', hl', hx⟩)
      · obtain ⟨l', hl', hhead⟩ := exists_of_candidate? hc
        exact ⟨l', hl', List.mem_of_head? hhead⟩
      · obtain ⟨l'', hl'', rfl⟩ := List.mem_map.mp hl'
        refine ⟨l'', hl'', ?_⟩
        rw [dropHead] at hx
        split at hx
        · exact List.mem_of_mem_tail hx
        · exact hx
    · rintro ⟨l', hl', hx⟩
      refine or_iff_not_imp_left.mpr fun hne => ?_
      exact ⟨dropHead c l', List.mem_map_of_mem hl', (mem_dropHead hne).mpr hx⟩

/-- One list is left as it is. -/
theorem Merges.eq_of_single {t l : List α} (h : Merges [t, []] l) : l = t := by
  obtain ⟨ls, hls⟩ : ∃ ls, ls = [t, []] := ⟨_, rfl⟩
  rw [← hls] at h
  induction h generalizing t with
  | nil h => exact (h t (hls ▸ List.mem_cons_self)).symm
  | @cons ls c l hc _ ih =>
    subst hls
    obtain ⟨l', hl', hhead⟩ := exists_of_candidate? hc
    obtain rfl | hl' := List.mem_cons.mp hl'
    · obtain ⟨t, rfl⟩ := List.head?_eq_some_iff.mp hhead
      rw [ih (t := t) (by simp [dropHead])]
    · rw [List.mem_singleton.mp hl'] at hhead
      cases hhead

/-- **One base**: its order is the result. -/
theorem Merges.eq_of_base {b : α} {t l : List α} (h : Merges [b :: t, [b]] l) : l = b :: t := by
  cases h with
  | nil h => exact absurd (h [b] (by simp)) (List.cons_ne_nil _ _)
  | @cons _ c l hc h =>
    obtain ⟨l', hl', hhead⟩ := exists_of_candidate? hc
    have hcb : c = b := by
      obtain rfl | hl' := List.mem_cons.mp hl'
      · exact (Option.some.inj hhead).symm
      · rw [List.mem_singleton.mp hl'] at hhead
        exact (Option.some.inj hhead).symm
    subst hcb
    have hrest : [c :: t, [c]].map (dropHead c) = [t, []] := by simp [dropHead]
    rw [hrest] at h
    rw [h.eq_of_single]

end Lib
