import Mathlib.Data.List.Basic
import UsbipIce.Lib.Search

/-!
# Regular expressions that backtrack

A backtracking matcher tries the matches of an expression at the beginning of a
text in an order of preference, and goes back to the next one where what follows
in the expression fails. An expression is here the list of its matches in this
order, each with the text left behind it (`Lib.Pattern`), so that going back is
going on in the list: what is tried first of a sequence is the first match of its
first part behind which the second part has a match.

A repetition that prefers to be short goes to the first place where the rest
matches (`Lib.Pattern.first_lazyMany`); one that prefers to be long goes to the end
of its run where the rest matches there (`Lib.Pattern.first_greedySome`). The
matches found one after the other in a text are those of its parts, where no match
begins in between (`Lib.findAll_append`, `Lib.findAll_match`).
-/

namespace Lib

variable {α β γ : Type*}

/-- An expression with values in `β`: its matches at the beginning of a text in
the order of preference, with the text left. -/
abbrev Pattern (α β : Type*) := List α → List (β × List α)

namespace Pattern

/-! ### Expressions -/

/-- The empty expression. -/
def done (b : β) : Pattern α β := fun l => [(b, l)]

/-- A sequence, the second part of which may depend on the first. -/
def andThen (P : Pattern α β) (f : β → Pattern α γ) : Pattern α γ :=
  fun l => (P l).flatMap fun r => f r.1 r.2

/-- A choice. -/
def orElse (P Q : Pattern α β) : Pattern α β := fun l => P l ++ Q l

/-- The text itself. -/
def literal [BEq α] (s : List α) : Pattern α Unit :=
  fun l => ((l.dropPrefix? s).map fun r => ((), r)).toList

/-- One element of a class. -/
def one (p : α → Bool) : Pattern α α
  | [] => []
  | c :: l => if p c then [(c, l)] else []

/-- Elements of a class, rather few: `*?`. -/
def lazyMany (p : α → Bool) : Pattern α (List α)
  | [] => [([], [])]
  | c :: l => ([], c :: l) :: if p c then (lazyMany p l).map fun r => (c :: r.1, r.2) else []

/-- Elements of a class, rather many: `*`. -/
def greedyMany (p : α → Bool) : Pattern α (List α) := fun l => (lazyMany p l).reverse

/-- One element of a class or more, rather many: `+`. -/
def greedySome (p : α → Bool) : Pattern α (List α) :=
  fun l => (greedyMany p l).filter fun r => !r.1.isEmpty

/-- The match that is preferred. -/
def first (P : Pattern α β) (l : List α) : Option (β × List α) := (P l).head?

/-- The value of the first match in a text. -/
def searchValue (P : Pattern α β) (l : List α) : Option β := (search (first P) l).map Prod.fst

/-- The text that is matched, and its length. -/
def matched (P : Pattern α β) (l : List α) : Option (List α × ℕ) :=
  (first P l).map fun r => (l.take (l.length - r.2.length), l.length - r.2.length)

/-! ### What is preferred -/

variable {P : Pattern α β} {f : β → Pattern α γ} {l a b : List α}

theorem first_andThen : first (andThen P f) l = (P l).findSome? fun r => first (f r.1) r.2 :=
  List.head?_flatMap

/-- A sequence fails where its second part fails behind every match of its
first. -/
theorem first_andThen_eq_none (h : ∀ r ∈ P l, first (f r.1) r.2 = none) :
    first (andThen P f) l = none := by
  rw [first_andThen]
  exact List.findSome?_eq_none_iff.mpr h

/-- The preferred match of the first part is kept where the second part has a
match behind it. -/
theorem first_andThen_of_head {r : β × List α} {r' : γ × List α} (hP : (P l).head? = some r)
    (hf : first (f r.1) r.2 = some r') : first (andThen P f) l = some r' := by
  obtain ⟨rs, hrs⟩ := List.head?_eq_some_iff.mp hP
  rw [first_andThen, hrs, List.findSome?_cons, hf]

theorem first_matched {v : β} (h : first P (a ++ b) = some (v, b)) :
    matched P (a ++ b) = some (a, a.length) := by
  rw [matched, h, Option.map_some, List.length_append, Nat.add_sub_cancel, List.take_left]

section Literal

variable [BEq α] [LawfulBEq α] {s : List α}

@[simp] theorem literal_append (s l : List α) : literal s (s ++ l) = [((), l)] := by
  simp [literal]

theorem literal_eq_nil (h : ¬s <+: l) : literal s l = [] := by
  have hnone : l.dropPrefix? s = none := by
    rw [Option.eq_none_iff_forall_ne_some]
    intro r hr
    exact h ⟨r, (dropPrefix?_eq_some.mp hr).symm⟩
  rw [literal, hnone]
  rfl

/-- Behind a literal, the rest is matched. -/
@[simp] theorem literal_andThen (f : Unit → Pattern α γ) (s l : List α) :
    andThen (literal s) f (s ++ l) = f () l := by
  simp [andThen]

@[simp] theorem literal_andThen_eq_nil (f : Unit → Pattern α γ) (h : ¬s <+: l) :
    andThen (literal s) f l = [] := by
  rw [andThen, literal_eq_nil h, List.flatMap_nil]

/-- An expression that starts with a literal starts as the literal does. -/
theorem startsWith_literal {d : α} (f : Unit → Pattern α γ) (s : List α) :
    StartsWith d (first (andThen (literal (d :: s)) f)) := by
  have hnone : ∀ l : List α, ¬d :: s <+: l → first (andThen (literal (d :: s)) f) l = none :=
    fun l hl => by rw [first, literal_andThen_eq_nil f hl, List.head?_nil]
  refine ⟨hnone [] fun h => List.cons_ne_nil d s (List.prefix_nil.mp h), fun c l hc => ?_⟩
  exact hnone (c :: l) fun h => hc (List.cons_prefix_cons.mp h).1.symm

end Literal

/-! ### Repetitions -/

variable {p : α → Bool}

@[simp] theorem lazyMany_cons (c : α) (l : List α) :
    lazyMany p (c :: l) =
      ([], c :: l) :: if p c then (lazyMany p l).map fun r => (c :: r.1, r.2) else [] :=
  rfl

/-- A repetition matches beginnings of the text that belong to the class. -/
theorem of_mem_lazyMany {r : List α × List α} (h : r ∈ lazyMany p l) :
    r.1 ++ r.2 = l ∧ ∀ c ∈ r.1, p c = true := by
  induction l generalizing r with
  | nil =>
    obtain rfl := List.mem_singleton.mp h
    exact ⟨rfl, fun c hc => absurd hc List.not_mem_nil⟩
  | cons c l ih =>
    rw [lazyMany_cons] at h
    rcases List.mem_cons.mp h with rfl | h
    · exact ⟨rfl, fun c hc => absurd hc List.not_mem_nil⟩
    · split at h
      · rename_i hc
        obtain ⟨r', hr', rfl⟩ := List.mem_map.mp h
        obtain ⟨heq, hall⟩ := ih hr'
        exact ⟨congrArg (c :: ·) heq, List.forall_mem_cons.mpr ⟨hc, hall⟩⟩
      · exact absurd h List.not_mem_nil

/-- **A lazy repetition goes as far as it has to**: up to the first place where the
rest matches. -/
theorem first_lazyMany {f : List α → Pattern α γ} {r : γ × List α} (ha : ∀ c ∈ a, p c = true)
    (hno : ∀ a₁ a₂, a = a₁ ++ a₂ → a₂ ≠ [] → first (f a₁) (a₂ ++ b) = none)
    (hb : first (f a) b = some r) : first (andThen (lazyMany p) f) (a ++ b) = some r := by
  induction a generalizing f with
  | nil =>
    refine first_andThen_of_head (r := ([], b)) ?_ hb
    cases b <;> rfl
  | cons c a ih =>
    obtain ⟨hc, ha⟩ := List.forall_mem_cons.mp ha
    have hhead : first (f []) (c :: (a ++ b)) = none := hno [] (c :: a) rfl (List.cons_ne_nil c a)
    rw [first_andThen, List.cons_append, lazyMany_cons, if_pos hc, List.findSome?_cons, hhead]
    -- the rest is the same expression behind one more element
    have htail := ih (f := fun a' => f (c :: a')) ha
      (fun a₁ a₂ heq hne => hno (c :: a₁) a₂ (congrArg (c :: ·) heq) hne) hb
    rw [first_andThen] at htail
    rw [List.findSome?_map]
    exact htail

theorem first_lazyMany_eq_none {f : List α → Pattern α γ}
    (h : ∀ a b, a ++ b = l → (∀ c ∈ a, p c = true) → first (f a) b = none) :
    first (andThen (lazyMany p) f) l = none :=
  first_andThen_eq_none fun r hr => h r.1 r.2 (of_mem_lazyMany hr).1 (of_mem_lazyMany hr).2

/-- **A greedy repetition goes to the end of its run.** -/
theorem head?_greedyMany (ha : ∀ c ∈ a, p c = true) (hb : ∀ c t, b = c :: t → p c = false) :
    (greedyMany p (a ++ b)).head? = some (a, b) := by
  rw [greedyMany, List.head?_reverse]
  induction a with
  | nil =>
    cases b with
    | nil => rfl
    | cons c t =>
      simp [hb c t rfl]
  | cons c a ih =>
    obtain ⟨hc, ha⟩ := List.forall_mem_cons.mp ha
    simp [hc, List.getLast?_cons, ih ha]

theorem head?_greedySome (hne : a ≠ []) (ha : ∀ c ∈ a, p c = true)
    (hb : ∀ c t, b = c :: t → p c = false) : (greedySome p (a ++ b)).head? = some (a, b) := by
  obtain ⟨rs, hrs⟩ := List.head?_eq_some_iff.mp (head?_greedyMany ha hb)
  have htrue : (!(a, b).1.isEmpty) = true := by
    cases a with
    | nil => exact absurd rfl hne
    | cons c a => rfl
  rw [greedySome, hrs, List.filter_cons, if_pos htrue]
  rfl

theorem of_mem_greedySome {r : List α × List α} (h : r ∈ greedySome p l) :
    r.1 ≠ [] ∧ r.1 ++ r.2 = l ∧ ∀ c ∈ r.1, p c = true := by
  obtain ⟨hmem, hne⟩ := List.mem_filter.mp h
  refine ⟨fun hnil => ?_, of_mem_lazyMany (List.mem_reverse.mp hmem)⟩
  rw [hnil] at hne
  cases hne

end Pattern

/-! ### The matches one after the other -/

/-- The values of the matches in a text that do not overlap, behind some elements
that belong to the last match; `m` answers with the value of a match and its
length, which is not zero. -/
def findAllFrom (m : List α → Option (β × ℕ)) : ℕ → List α → List β
  | _, [] => []
  | k + 1, _ :: l => findAllFrom m k l
  | 0, c :: l =>
    match m (c :: l) with
    | some (b, n) => b :: findAllFrom m (n - 1) l
    | none => findAllFrom m 0 l

/-- **The values of the matches in a text**, from the left. -/
def findAll (m : List α → Option (β × ℕ)) (l : List α) : List β := findAllFrom m 0 l

variable {m : List α → Option (β × ℕ)} {a l : List α}

@[simp]
theorem findAllFrom_append (a l : List α) : findAllFrom m a.length (a ++ l) = findAll m l := by
  induction a with
  | nil => rfl
  | cons c a ih => exact ih

/-- A text in which no match begins is passed over. -/
theorem findAll_append (h : ∀ c t, (c :: t) <:+ a → m (c :: (t ++ l)) = none) :
    findAll m (a ++ l) = findAll m l := by
  induction a with
  | nil => rfl
  | cons c a ih =>
    rw [List.cons_append, findAll, findAllFrom, h c a (List.suffix_refl _)]
    exact ih fun c' t ht => h c' t (ht.trans (List.suffix_cons c a))

/-- A match is found, and the search goes on behind it. -/
theorem findAll_match {b : β} (hne : a ≠ []) (h : m (a ++ l) = some (b, a.length)) :
    findAll m (a ++ l) = b :: findAll m l := by
  obtain ⟨c, a, rfl⟩ := List.exists_cons_of_ne_nil hne
  rw [List.cons_append] at h
  rw [List.cons_append, findAll, findAllFrom, h]
  exact congrArg (b :: ·) (findAllFrom_append a l)

end Lib
