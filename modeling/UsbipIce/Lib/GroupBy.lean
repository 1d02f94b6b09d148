import Mathlib.Data.List.Basic

/-!
# Groups of neighbours

An iterator that groups a list by a key compares the key of every element with
the key of the group that is open, which is the key of its first element, and
begins a new group where the two differ. The comparison is the keys' own: it
need not be an equality, and it may raise (`Lib.groupby`).

Where it does not raise, the groups are the list cut into pieces
(`Lib.flatMap_groupby`). Where it raises exactly for keys of different kinds, the
iterator gets to its end exactly on lists of one kind
(`Lib.groupby_raises_iff`).
-/

namespace Lib

variable {κ α γ : Type*}

/-- The groups from an open one on, and whether a comparison has raised; the group
that was open then is not among them. -/
def groupFrom (eq : κ → κ → Option Bool) (key : α → κ) :
    κ × List α → List α → List (κ × List α) × Bool
  | group, [] => ([group], false)
  | group, a :: as =>
    match eq group.1 (key a) with
    | none => ([], true)
    | some true => groupFrom eq key (group.1, group.2 ++ [a]) as
    | some false =>
      (group :: (groupFrom eq key (key a, [a]) as).1, (groupFrom eq key (key a, [a]) as).2)

/-- **The groups of neighbours** with the same key. -/
def groupby (eq : κ → κ → Option Bool) (key : α → κ) : List α → List (κ × List α) × Bool
  | [] => ([], false)
  | a :: as => groupFrom eq key (key a, [a]) as

variable {eq : κ → κ → Option Bool} {key : α → κ}

@[simp]
theorem groupFrom_cons_of_true {group : κ × List α} {a : α} (h : eq group.1 (key a) = some true)
    (as : List α) :
    groupFrom eq key group (a :: as) = groupFrom eq key (group.1, group.2 ++ [a]) as := by
  rw [groupFrom, h]

@[simp]
theorem groupFrom_cons_of_false {group : κ × List α} {a : α} (h : eq group.1 (key a) = some false)
    (as : List α) :
    groupFrom eq key group (a :: as) =
      (group :: (groupFrom eq key (key a, [a]) as).1, (groupFrom eq key (key a, [a]) as).2) := by
  rw [groupFrom, h]

@[simp] theorem groupFrom_cons_of_none {group : κ × List α} {a : α} (h : eq group.1 (key a) = none)
    (as : List α) : groupFrom eq key group (a :: as) = ([], true) := by
  rw [groupFrom, h]

/-! ### The pieces -/

theorem flatMap_groupFrom {group : κ × List α} {as : List α}
    (h : (groupFrom eq key group as).2 = false) :
    (groupFrom eq key group as).1.flatMap Prod.snd = group.2 ++ as := by
  induction as generalizing group with
  | nil => rfl
  | cons a as ih =>
    cases heq : eq group.1 (key a) with
    | none =>
      rw [groupFrom_cons_of_none heq] at h
      cases h
    | some same =>
      cases same with
      | true =>
        rw [groupFrom_cons_of_true heq] at h ⊢
        rw [ih h, List.append_assoc]
        rfl
      | false =>
        rw [groupFrom_cons_of_false heq] at h ⊢
        rw [List.flatMap_cons, ih h]
        rfl

/-- **The groups are the list**, cut into pieces. -/
theorem flatMap_groupby {as : List α} (h : (groupby eq key as).2 = false) :
    (groupby eq key as).1.flatMap Prod.snd = as := by
  cases as with
  | nil => rfl
  | cons a as => exact flatMap_groupFrom h

/-- What holds of the key of every element holds of the key of every group. -/
theorem forall_key_groupFrom {Q : κ → Prop} {group : κ × List α} {as : List α} (hgroup : Q group.1)
    (h : ∀ a ∈ as, Q (key a)) : ∀ x ∈ (groupFrom eq key group as).1, Q x.1 := by
  induction as generalizing group with
  | nil =>
    intro x hx
    obtain rfl := List.mem_singleton.mp hx
    exact hgroup
  | cons a as ih =>
    obtain ⟨ha, has⟩ := List.forall_mem_cons.mp h
    cases heq : eq group.1 (key a) with
    | none =>
      rw [groupFrom_cons_of_none heq]
      exact fun x hx => absurd hx List.not_mem_nil
    | some same =>
      cases same with
      | true =>
        rw [groupFrom_cons_of_true heq]
        exact ih hgroup has
      | false =>
        rw [groupFrom_cons_of_false heq]
        exact List.forall_mem_cons.mpr ⟨hgroup, ih ha has⟩

theorem forall_key_groupby {Q : κ → Prop} {as : List α} (h : ∀ a ∈ as, Q (key a)) :
    ∀ x ∈ (groupby eq key as).1, Q x.1 := by
  cases as with
  | nil => exact fun x hx => absurd hx List.not_mem_nil
  | cons a as =>
    obtain ⟨ha, has⟩ := List.forall_mem_cons.mp h
    exact forall_key_groupFrom  ha has

/-! ### Comparisons that raise -/

/-- Keys of different kinds are not compared. -/
theorem groupFrom_raises_iff {kind : κ → γ} (hkind : ∀ k k', eq k k' = none ↔ kind k ≠ kind k')
    {group : κ × List α} {as : List α} :
    (groupFrom eq key group as).2 = false ↔ ∀ a ∈ as, kind (key a) = kind group.1 := by
  induction as generalizing group with
  | nil => exact iff_of_true rfl fun a ha => absurd ha List.not_mem_nil
  | cons a as ih =>
    rw [List.forall_mem_cons]
    cases heq : eq group.1 (key a) with
    | none =>
      rw [groupFrom_cons_of_none heq]
      have hne := (hkind _ _).mp heq
      exact iff_of_false Bool.noConfusion fun h => hne h.1.symm
    | some same =>
      have hsame : kind (key a) = kind group.1 := by
        by_contra hne
        rw [(hkind _ _).mpr (Ne.symm hne)] at heq
        cases heq
      rw [and_iff_right hsame]
      cases same with
      | true =>
        rw [groupFrom_cons_of_true heq]
        exact ih
      | false =>
        rw [groupFrom_cons_of_false heq, ← hsame]
        exact ih

/-- **The iterator gets to its end** exactly on a list of one kind. -/
theorem groupby_raises_iff {kind : κ → γ} (hkind : ∀ k k', eq k k' = none ↔ kind k ≠ kind k')
    {as : List α} :
    (groupby eq key as).2 = false ↔ ∀ a ∈ as, ∀ a' ∈ as, kind (key a) = kind (key a') := by
  cases as with
  | nil => exact iff_of_true rfl fun a ha => absurd ha List.not_mem_nil
  | cons a as =>
    refine (groupFrom_raises_iff  hkind).trans ⟨fun h => ?_, fun h x hx => ?_⟩
    · have hall : ∀ x ∈ a :: as, kind (key x) = kind (key a) := List.forall_mem_cons.mpr ⟨rfl, h⟩
      exact fun x hx y hy => (hall x hx).trans (hall y hy).symm
    · exact h x (List.mem_cons_of_mem _ hx) a List.mem_cons_self

end Lib
