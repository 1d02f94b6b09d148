import Mathlib.Data.List.Basic

/-!
# Searching a text

A pattern, tried at the beginning of a text, answers or does not. Searching a
text for it is trying it at every position, from the left, until it answers
(`Lib.search`): this is what a regular-expression library calls `search`.

What a program concludes from a search rests on where the pattern does *not*
answer. `Lib.search_append` passes over a prefix at none of whose positions it
does; for a pattern that starts with a fixed character, a prefix without that
character is such a one (`Lib.search_append_of_not_mem`), and a whole text
without it has no match (`Lib.search_eq_none_of_not_mem`).
-/

namespace Lib

variable {α β : Type*}

/-- The answer of a pattern at the first position of the text where it has
one. -/
def search (m : List α → Option β) : List α → Option β
  | [] => m []
  | c :: l => (m (c :: l)).or (search m l)

/-- The pattern of one or more elements satisfying `p`, as many as there are. -/
def many (p : α → Bool) (l : List α) : Option (List α) :=
  if l.takeWhile p = [] then none else some (l.takeWhile p)

theorem search_step (m : List α → Option β) (c : α) (l : List α) :
    search m (c :: l) = (m (c :: l)).or (search m l) :=
  rfl

@[simp] theorem search_cons {m : List α → Option β} {c : α} {l : List α} (h : m (c :: l) = none) :
    search m (c :: l) = search m l := by
  rw [search_step, h, Option.none_or]

/-- A pattern that answers at the beginning is found there. -/
theorem search_of_some {m : List α → Option β} {l : List α} {r : β} (h : m l = some r) :
    search m l = some r := by
  cases l with
  | nil => exact h
  | cons c l => rw [search_step, h, Option.some_or]

/-- **A prefix without a match is passed over.** -/
theorem search_append {m : List α → Option β} {a b : List α}
    (h : ∀ c t, (c :: t) <:+ a → m (c :: t ++ b) = none) : search m (a ++ b) = search m b := by
  induction a with
  | nil => rfl
  | cons c a ih =>
    have hhead : m (c :: (a ++ b)) = none := h c a (List.suffix_refl _)
    rw [List.cons_append, search_cons hhead]
    exact ih fun c' t ht => h c' t (ht.trans (List.suffix_cons c a))

theorem search_map {γ : Type*} (m : List α → Option β) (f : β → γ) (l : List α) :
    search (fun l => (m l).map f) l = (search m l).map f := by
  induction l with
  | nil => rfl
  | cons c l ih => rw [search_step, search_step, ih, Option.map_or]

/-! ### Patterns that start with a fixed element -/

/-- The pattern answers only where the text starts with `d`. -/
def StartsWith (d : α) (m : List α → Option β) : Prop :=
  m [] = none ∧ ∀ c l, c ≠ d → m (c :: l) = none

theorem search_append_of_not_mem {m : List α → Option β} {d : α} (hm : StartsWith d m)
    {a b : List α} (h : d ∉ a) : search m (a ++ b) = search m b := by
  refine search_append fun c t ht => hm.2 c (t ++ b) ?_
  rintro rfl
  exact h (ht.subset List.mem_cons_self)

theorem search_eq_none_of_not_mem {m : List α → Option β} {d : α} (hm : StartsWith d m)
    {a : List α} (h : d ∉ a) : search m a = none := by
  rw [← List.append_nil a, search_append_of_not_mem hm h]
  exact hm.1

/-! ### Where a text lies in another -/

/-- A text lies behind a prefix without its first element. -/
theorem infix_of_not_mem {d : α} {s a l : List α} (ha : d ∉ a) (h : d :: s <:+: a ++ l) :
    d :: s <:+: l := by
  induction a with
  | nil => exact h
  | cons c a ih =>
    rcases List.infix_cons_iff.mp h with h | h
    · obtain ⟨rfl, -⟩ := List.cons_prefix_cons.mp h
      exact absurd List.mem_cons_self ha
    · exact ih (List.not_mem_of_not_mem_cons ha) h

/-- A text does not run on into an element that it has only in front, or not at
all. -/
theorem prefix_of_not_mem_tail {d : α} {s a r : List α} (hne : a ≠ []) (hd : d ∉ s.tail)
    (h : s <+: a ++ d :: r) : s <+: a := by
  obtain ⟨z, hz⟩ := h
  rcases List.append_eq_append_iff.mp hz with ⟨t, ht, -⟩ | ⟨t, rfl, ht⟩
  · exact ⟨t, ht.symm⟩
  · cases t with
    | nil => exact ⟨[], by rw [List.append_nil, List.append_nil]⟩
    | cons x t =>
      obtain ⟨rfl, -⟩ := List.cons.inj ht
      obtain ⟨y, a, rfl⟩ := List.exists_cons_of_ne_nil hne
      exact absurd (List.mem_append_right a List.mem_cons_self) hd

/-- A text that ends with a separator ends where the first separator is, or
before. -/
theorem prefix_of_separator {d : α} {m a r : List α} (hm : d ∉ m)
    (h : m ++ [d] <+: a ++ d :: r) : m ++ [d] <+: a ++ [d] := by
  induction m generalizing a with
  | nil =>
    cases a with
    | nil => exact List.prefix_refl _
    | cons c a =>
      obtain ⟨hc, -⟩ := List.cons_prefix_cons.mp h
      exact List.cons_prefix_cons.mpr ⟨hc, List.nil_prefix⟩
  | cons x m ih =>
    cases a with
    | nil =>
      obtain ⟨rfl, -⟩ := List.cons_prefix_cons.mp h
      exact absurd List.mem_cons_self hm
    | cons c a =>
      obtain ⟨hc, hrest⟩ := List.cons_prefix_cons.mp h
      exact List.cons_prefix_cons.mpr ⟨hc, ih (List.not_mem_of_not_mem_cons hm) hrest⟩

variable [BEq α] [LawfulBEq α]

/-- Behind a literal, a pattern starts as the literal does. -/
theorem startsWith_dropPrefix? {d : α} {p : List α} (f : List α → Option β) :
    StartsWith d fun l => (l.dropPrefix? (d :: p)).bind f := by
  have hnone : ∀ l : List α, (∀ t, l ≠ d :: t) → l.dropPrefix? (d :: p) = none := by
    intro l hl
    rw [Option.eq_none_iff_forall_ne_some]
    intro s hs
    obtain ⟨p', rfl, hp'⟩ := List.dropPrefix?_eq_some_iff.mp hs
    obtain rfl := eq_of_beq hp'
    exact hl _ rfl
  have hbind : ∀ l : List α, (∀ t, l ≠ d :: t) → (l.dropPrefix? (d :: p)).bind f = none :=
    fun l hl => by rw [hnone l hl, Option.bind_none]
  exact ⟨hbind [] fun t => (List.cons_ne_nil d t).symm,
    fun c l hc => hbind (c :: l) fun t heq => hc (List.head_eq_of_cons_eq heq)⟩

theorem dropPrefix?_eq_some {p l r : List α} : l.dropPrefix? p = some r ↔ l = p ++ r := by
  rw [List.dropPrefix?_eq_some_iff]
  constructor
  · rintro ⟨p', rfl, hp⟩
    rw [eq_of_beq hp]
  · rintro rfl
    exact ⟨p, rfl, beq_self_eq_true p⟩

@[simp] theorem dropPrefix?_cons (d c : α) (p l : List α) :
    (c :: l).dropPrefix? (d :: p) = if c == d then l.dropPrefix? p else none := by
  split
  · rename_i heq
    obtain rfl := eq_of_beq heq
    ext r
    rw [dropPrefix?_eq_some, dropPrefix?_eq_some, List.cons_append, List.cons_inj_right]
  · rename_i hne
    refine Option.eq_none_iff_forall_ne_some.mpr fun r hr => hne ?_
    exact beq_iff_eq.mpr (List.head_eq_of_cons_eq (dropPrefix?_eq_some.mp hr))

@[simp] theorem dropPrefix?_append (p l : List α) : (p ++ l).dropPrefix? p = some l :=
  List.dropPrefix?_eq_some_iff.mpr ⟨p, rfl, beq_self_eq_true p⟩

end Lib
