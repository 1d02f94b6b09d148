import Mathlib.Data.List.Basic

/-!
# What has happened since

Some of the events of a trace begin something: an attempt, a session. What is
said of each of them is said of the events between its beginning and the next
one. `Lib.since` is the part of a trace behind the latest beginning
(`Lib.since_eq_some_iff`), so a property of every part is one of what has happened
since, at every moment (`Lib.each_iff`).
-/

namespace Lib

variable {ε : Type*}

/-- The events behind the last one satisfying `p`. -/
def since (p : ε → Bool) : List ε → Option (List ε)
  | [] => none
  | e :: es => (since p es).or (if p e then some es else none)

variable {p : ε → Bool}

@[simp] theorem since_cons (e : ε) (es : List ε) :
    since p (e :: es) = (since p es).or (if p e then some es else none) :=
  rfl

@[simp] theorem since_append (es es' : List ε) :
    since p (es ++ es') = (since p es').or ((since p es).map (· ++ es')) := by
  induction es with
  | nil => exact (Option.or_none).symm
  | cons e es ih =>
    have hhead : (if p e then some (es ++ es') else none) =
        (if p e then some es else none).map (· ++ es') := by
      split <;> rfl
    rw [List.cons_append, since_cons, since_cons, ih, Option.or_assoc, hhead, Option.map_or]

theorem since_eq_none {es : List ε} (h : ∀ e ∈ es, p e = false) : since p es = none := by
  induction es with
  | nil => rfl
  | cons e es ih =>
    obtain ⟨he, h⟩ := List.forall_mem_cons.mp h
    simp [ih h, he]

/-- Where nothing begins, the events are added. -/
theorem since_append_of_forall {es' : List ε} (h : ∀ e ∈ es', p e = false) (es : List ε) :
    since p (es ++ es') = (since p es).map (· ++ es') := by
  simp [since_eq_none h]

/-- At a beginning nothing has happened yet. -/
@[simp]
theorem since_concat {e : ε} (h : p e = true) (es : List ε) : since p (es ++ [e]) = some [] := by
  rw [since_append, since_cons, h]
  rfl

theorem since_eq_some_iff {es l : List ε} :
    since p es = some l ↔
      ∃ before e, es = before ++ e :: l ∧ p e = true ∧ ∀ e' ∈ l, p e' = false := by
  constructor
  · induction es with
    | nil => nofun
    | cons e es ih =>
      intro h
      rw [since_cons, Option.or_eq_some_iff] at h
      obtain h | ⟨hnone, h⟩ := h
      · obtain ⟨before, e', rfl, he', hl⟩ := ih h
        exact ⟨e :: before, e', rfl, he', hl⟩
      · split at h
        · rename_i he
          obtain rfl := Option.some.inj h
          refine ⟨[], e, rfl, he, fun e' he' => Bool.eq_false_iff.mpr fun hp => ?_⟩
          obtain ⟨before, after, rfl⟩ := List.append_of_mem he'
          rw [since_append, since_cons, hp, if_pos rfl, Option.or_eq_none_iff,
            Option.or_eq_none_iff] at hnone
          cases hnone.1.2
        · cases h
  · rintro ⟨before, e, rfl, he, hl⟩
    simp [since_eq_none hl, he]

theorem exists_since_iff {es : List ε} :
    (∃ l, since p es = some l) ↔ es.any p = true := by
  constructor
  · rintro ⟨l, hl⟩
    obtain ⟨before, e, rfl, he, -⟩ := since_eq_some_iff.mp hl
    exact List.any_eq_true.mpr ⟨e, List.mem_append_right _ List.mem_cons_self, he⟩
  · intro h
    obtain ⟨e, hmem, he⟩ := List.any_eq_true.mp h
    cases hs : since p es with
    | some l => exact ⟨l, rfl⟩
    | none =>
      obtain ⟨before, after, rfl⟩ := List.append_of_mem hmem
      rw [since_append, since_cons, he, if_pos rfl, Option.or_eq_none_iff,
        Option.or_eq_none_iff] at hs
      cases hs.1.2

/-! ### Every part -/

/-- Every part, as far as it has got at any moment, has the property. -/
def Each (p : ε → Bool) (P : List ε → Prop) (es : List ε) : Prop :=
  ∀ before e l after, es = before ++ e :: (l ++ after) → p e = true →
    (∀ e' ∈ l, p e' = false) → P l

variable {P : List ε → Prop} {es es' : List ε}

/-- **A property of every part is one of what has happened since**, at every
moment. -/
theorem each_iff : Each p P es ↔ ∀ pre, pre <+: es → ∀ l, since p pre = some l → P l := by
  constructor
  · rintro h pre ⟨after, rfl⟩ l hl
    obtain ⟨before, e, rfl, he, hnone⟩ := since_eq_some_iff.mp hl
    refine h before e l after ?_ he hnone
    rw [List.append_assoc, List.cons_append]
  · rintro h before e l after rfl he hnone
    refine h (before ++ e :: l) ⟨after, ?_⟩ l (since_eq_some_iff.mpr ⟨before, e, rfl, he, hnone⟩)
    rw [List.append_assoc, List.cons_append]

theorem Each.since (h : Each p P es) {l : List ε} (hl : since p es = some l) : P l :=
  each_iff.mp h es (List.prefix_refl es) l hl

theorem each_nil : Each p P [] := by
  refine each_iff.mpr fun pre hpre l hl => ?_
  rw [List.prefix_nil.mp hpre] at hl
  cases hl

/-- Events at which nothing begins go on with the latest part. -/
theorem Each.append (mono : ∀ l l', P (l ++ l') → P l) (h : Each p P es)
    (hno : ∀ e ∈ es', p e = false) (hP : ∀ l, Lib.since p es = some l → P (l ++ es')) :
    Each p P (es ++ es') := by
  refine each_iff.mpr fun pre hpre l hl => ?_
  obtain ⟨after, hafter⟩ := hpre
  obtain ⟨mid, rfl, -⟩ | ⟨mid, rfl, rfl⟩ := List.append_eq_append_iff.mp hafter
  · exact each_iff.mp h pre (List.prefix_append _ _) l hl
  · rw [since_append_of_forall fun e he => hno e (List.mem_append_left _ he)] at hl
    obtain ⟨l', hl', rfl⟩ := Option.map_eq_some_iff.mp hl
    refine mono _ after ?_
    rw [List.append_assoc]
    exact hP l' hl'

/-- With a beginning, a new part begins. -/
theorem Each.concat (h : Each p P es) {e : ε} (he : p e = true) (hP : P []) :
    Each p P (es ++ [e]) := by
  refine each_iff.mpr fun pre hpre l hl => ?_
  obtain rfl | hpre := List.prefix_concat_iff.mp hpre
  · rw [since_concat he] at hl
    obtain rfl := Option.some.inj hl
    exact hP
  · exact each_iff.mp h pre hpre l hl

end Lib
