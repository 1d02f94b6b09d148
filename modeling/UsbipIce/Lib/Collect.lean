import Mathlib.Data.List.Induction
import Mathlib.Data.List.Perm.Basic
import UsbipIce.Lib.Table

/-!
# Dictionaries of lists

Values collected in a dictionary by key: a value goes at the end of the list
under its key (`Lib.Table.append`), and a value without a key goes nowhere. The
list under a key is then the values of the key in their order
(`Lib.Table.mem_appendAll`, `Lib.Table.mem_collect`), so the lists of some keys
hold, one after the other, the values of those keys: each as often as it came, but
not in the order they came (`Lib.Table.flatMap_collect_perm`).
-/

namespace Lib.Table

variable {κ β : Type*} [DecidableEq κ]

/-- Appends a value to the list under a key, which is empty where there is
none. -/
def append (t : Table (κ × List β) Prod.fst) (k : κ) (b : β) : Table (κ × List β) Prod.fst :=
  t.put (k, ((t.find? k).map Prod.snd).getD [] ++ [b])

/-- A step of the collecting. -/
def collectStep (f : β → Option κ) (t : Table (κ × List β) Prod.fst) (b : β) :
    Table (κ × List β) Prod.fst :=
  match f b with
  | none => t
  | some k => t.append k b

/-- The values by their keys. -/
def collect (f : β → Option κ) (l : List β) : Table (κ × List β) Prod.fst :=
  l.foldl (collectStep f) ∅

@[simp] theorem collect_concat (f : β → Option κ) (l : List β) (b : β) :
    collect f (l ++ [b]) = collectStep f (collect f l) b := by
  rw [collect, List.foldl_append, List.foldl_cons, List.foldl_nil, collect]

/-- The values of some pairs, under the keys they come with. -/
def appendAll (l : List (κ × β)) : Table (κ × List β) Prod.fst :=
  l.foldl (fun t p => t.append p.1 p.2) ∅

@[simp] theorem appendAll_concat (l : List (κ × β)) (p : κ × β) :
    appendAll (l ++ [p]) = (appendAll l).append p.1 p.2 := by
  rw [appendAll, List.foldl_append, List.foldl_cons, List.foldl_nil, appendAll]

@[simp] theorem mem_append {t : Table (κ × List β) Prod.fst} {k : κ} {b : β} {p : κ × List β} :
    p ∈ t.append k b ↔
      p = (k, ((t.find? k).map Prod.snd).getD [] ++ [b]) ∨ p ∈ t ∧ p.1 ≠ k := by
  simp [append]

/-- **What is under a key**: the values that came with it, in their order. -/
@[simp] theorem mem_appendAll {l : List (κ × β)} {p : κ × List β} :
    p ∈ appendAll l ↔ p.2 = (l.filter fun q => q.1 = p.1).map Prod.snd ∧ p.2 ≠ [] := by
  induction l using List.reverseRecOn generalizing p with
  | nil =>
    refine iff_of_false (not_mem_empty p) ?_
    rintro ⟨hnil, hne⟩
    exact hne hnil
  | append_singleton l q ih =>
    -- the list under the key so far, empty where the key is new
    have hold : (((appendAll l).find? q.1).map Prod.snd).getD [] =
        (l.filter fun q' => q'.1 = q.1).map Prod.snd := by
      cases hfind : (appendAll l).find? q.1 with
      | none =>
        rw [find?_eq_none, mem_keys] at hfind
        have hnone : (q.1, (l.filter fun q' => q'.1 = q.1).map Prod.snd) ∉ appendAll l :=
          fun h => hfind ⟨_, h, rfl⟩
        by_contra hne
        exact hnone (ih.mpr ⟨rfl, fun hnil => hne hnil.symm⟩)
      | some r =>
        obtain ⟨hr, hk⟩ := find?_eq_some.mp hfind
        rw [← hk]
        exact (ih.mp hr).1
    rw [appendAll_concat, mem_append, hold, ih, List.filter_append, List.map_append]
    obtain ⟨k, bs⟩ := p
    by_cases hk : k = q.1
    · subst hk
      simp only [Prod.mk.injEq, true_and, ne_eq, not_true_eq_false, and_false, or_false,
        List.filter_cons, List.filter_nil, decide_true, if_true, List.map_cons, List.map_nil]
      refine ⟨fun hbs => ⟨hbs, ?_⟩, And.left⟩
      rw [hbs]
      exact List.concat_ne_nil _ _
    · simp [hk, Ne.symm hk]

variable {f : β → Option κ} {l : List β}

/-- Collecting is appending the values that have a key. -/
theorem collect_eq_appendAll :
    collect f l = appendAll (l.filterMap fun b => (f b).map fun k => (k, b)) := by
  induction l using List.reverseRecOn with
  | nil => rfl
  | append_singleton l b ih =>
    rw [collect_concat, ih, collectStep, List.filterMap_append]
    cases hb : f b with
    | none => simp [hb]
    | some k => simp [hb, appendAll_concat]

/-- What is under a key are the values of the key, in their order. -/
@[simp] theorem mem_collect {p : κ × List β} :
    p ∈ collect f l ↔ p.2 = l.filter (fun b => f b = some p.1) ∧ p.2 ≠ [] := by
  have hvalues : ((l.filterMap fun b => (f b).map fun k => (k, b)).filter fun q => q.1 = p.1).map
      Prod.snd = l.filter fun b => f b = some p.1 := by
    induction l with
    | nil => rfl
    | cons b l ih =>
      cases hb : f b with
      | none => simp [hb, ih]
      | some k =>
        by_cases hk : k = p.1 <;> simp [hb, hk, ih]
  simp [collect_eq_appendAll, hvalues]

/-- Filtering by two tests that exclude each other is filtering by one or the
other, up to the order. -/
theorem filter_append_filter_perm {p q : β → Bool} (l : List β)
    (hpq : ∀ b ∈ l, p b = true → q b = false) :
    (l.filter p ++ l.filter q).Perm (l.filter fun b => p b || q b) := by
  have hp : (l.filter fun b => p b || q b).filter p = l.filter p := by
    rw [List.filter_filter]
    refine List.filter_congr fun b _ => ?_
    cases p b <;> rfl
  have hq : (l.filter fun b => p b || q b).filter (fun b => !p b) = l.filter q := by
    rw [List.filter_filter]
    refine List.filter_congr fun b hb => ?_
    cases h : p b with
    | true => simp [hpq b hb h]
    | false => rfl
  have hsplit := List.filter_append_perm p (l.filter fun b => p b || q b)
  rwa [hp, hq] at hsplit

/-- The values of different keys, one key after the other, are the values of any
of the keys. -/
theorem flatMap_filter_perm {ks : List κ} (hks : ks.Nodup) (f : β → Option κ) (l : List β) :
    (ks.flatMap fun k => l.filter fun b => f b = some k).Perm
      (l.filter fun b => (f b).any (· ∈ ks)) := by
  induction ks with
  | nil => simp
  | cons k ks ih =>
    obtain ⟨hk, hks⟩ := List.nodup_cons.mp hks
    have hpart := filter_append_filter_perm (p := fun b => f b = some k)
      (q := fun b => (f b).any (· ∈ ks)) l fun b _ hb => by
        simpa [of_decide_eq_true hb] using hk
    have hor : ∀ b, ((f b = some k : Bool) || (f b).any (· ∈ ks)) = (f b).any (· ∈ k :: ks) := by
      intro b
      cases f b <;> simp
    rw [List.flatMap_cons]
    refine ((ih hks).append_left _).trans (hpart.trans ?_)
    rw [List.filter_congr fun b _ => hor b]

/-- **The lists of some keys hold the values of those keys**, each as often as
it came. -/
theorem flatMap_collect_perm (sel : κ → Bool) :
    (((collect f l).rows.filter fun p => sel p.1).flatMap Prod.snd).Perm
      (l.filter fun b => (f b).any sel) := by
  have hrow : ∀ p ∈ (collect f l).rows.filter fun p => sel p.1,
      p.2 = l.filter fun b => f b = some p.1 :=
    fun p hp => (mem_collect.mp (List.mem_of_mem_filter hp)).1
  have hks : (((collect f l).rows.filter fun p => sel p.1).map Prod.fst).Nodup :=
    (collect f l).nodup.sublist (List.filter_sublist.map _)
  have hflat : ((collect f l).rows.filter fun p => sel p.1).flatMap Prod.snd =
      (((collect f l).rows.filter fun p => sel p.1).map Prod.fst).flatMap fun k =>
        l.filter fun b => f b = some k := by
    rw [List.flatMap_map]
    exact List.flatMap_congr hrow
  -- the keys selected that occur are the keys selected, on the values there are
  have hsel : ∀ b ∈ l, (f b).any (· ∈ ((collect f l).rows.filter fun p => sel p.1).map Prod.fst) =
      (f b).any sel := by
    intro b hb
    cases hk : f b with
    | none => rfl
    | some k =>
      have hmem : (k, l.filter fun b => f b = some k) ∈ collect f l :=
        mem_collect.mpr ⟨rfl, List.ne_nil_of_mem (List.mem_filter.mpr ⟨hb, by simpa using hk⟩)⟩
      rw [Option.any_some, Option.any_some, Bool.eq_iff_iff, decide_eq_true_iff, List.mem_map]
      constructor
      · rintro ⟨p, hp, rfl⟩
        exact (List.mem_filter.mp hp).2
      · intro hs
        exact ⟨_, List.mem_filter.mpr ⟨hmem, hs⟩, rfl⟩
  rw [hflat]
  refine (flatMap_filter_perm hks f l).trans ?_
  rw [List.filter_congr hsel]

end Lib.Table
