import Mathlib.Data.List.Lex
import Mathlib.Order.WellFounded

/-!
# Depth-first search with a worklist

A search for a goal that keeps the nodes still to be looked at on a list: it
takes the first of them, stops where it is a goal, and otherwise puts the node's
children in its place (`Lib.depthFirst`). Nothing is marked as visited, so a node
may be looked at several times.

Where going from a node to a child cannot go on forever, the search comes to an
end (`Lib.exists_depthFirst`). What it finds is told by walks: a walk goes from a
node to one of its children, again and again, and is written as the positions of
these children. The search finds the end of the leftmost walk to a goal, leftmost
in the lexicographic order of positions, and nothing where there is no such walk
(`Lib.Leftmost`).
-/

namespace Lib

variable {α : Type*} (children : α → List α) (goal : α → Bool)

/-- The search, for `n` rounds of its loop: the goal found, or that there is
none, or `none` where the rounds do not suffice. -/
def depthFirst : ℕ → List α → Option (Option α)
  | 0, _ => none
  | _ + 1, [] => some none
  | n + 1, x :: rest => if goal x then some (some x) else depthFirst n (children x ++ rest)

/-- Where a walk leads. -/
def walk : α → List ℕ → Option α
  | x, [] => some x
  | x, i :: p => ((children x)[i]?).bind fun y => walk y p

/-- **The end of the leftmost walk to a goal**, or none. -/
def Leftmost (x : α) : Option α → Prop
  | none => ∀ p y, walk children x p = some y → goal y = false
  | some g => goal g = true ∧ ∃ p, walk children x p = some g ∧
      ∀ q y, walk children x q = some y → goal y = true → p ≤ q

/-- The same, for walks from one of several nodes. -/
def LeftmostOf (l : List α) : Option α → Prop
  | none => ∀ (i : ℕ) x p y, l[i]? = some x → walk children x p = some y → goal y = false
  | some g => goal g = true ∧ ∃ (i : ℕ) (x : α) (p : List ℕ), l[i]? = some x ∧
      walk children x p = some g ∧ ∀ (j : ℕ) z q y, l[j]? = some z → walk children z q = some y →
        goal y = true → i :: p ≤ j :: q

variable {children goal} {x g : α} {l : List α} {r : Option α}

/-! ### Leftmost walks -/

theorem nil_le_positions (q : List ℕ) : [] ≤ q := by
  cases q with
  | nil => exact le_rfl
  | cons j q => exact le_of_lt List.Lex.nil

@[simp] theorem cons_le_cons_positions {i j : ℕ} {p q : List ℕ} :
    i :: p ≤ j :: q ↔ i < j ∨ i = j ∧ p ≤ q := by
  constructor
  · intro h
    obtain h | h := lt_or_eq_of_le h
    · exact (List.cons_lt_cons_iff.mp h).imp_right fun h => ⟨h.1, le_of_lt h.2⟩
    · obtain ⟨rfl, rfl⟩ := List.cons.inj h
      exact Or.inr ⟨rfl, le_rfl⟩
  · rintro (h | ⟨rfl, h⟩)
    · exact le_of_lt (List.Lex.rel h)
    · exact List.cons_le_cons i h

/-- There is one leftmost walk. -/
theorem Leftmost.unique {r' : Option α} (h : Leftmost children goal x r)
    (h' : Leftmost children goal x r') : r = r' := by
  cases r with
  | none =>
    cases r' with
    | none => rfl
    | some g' =>
      obtain ⟨hg', p, hp, -⟩ := h'
      rw [h p g' hp] at hg'
      cases hg'
  | some g =>
    obtain ⟨hg, p, hp, hleast⟩ := h
    cases r' with
    | none =>
      rw [h' p g hp] at hg
      cases hg
    | some g' =>
      obtain ⟨hg', p', hp', hleast'⟩ := h'
      have hsame : p = p' := le_antisymm (hleast p' g' hp' hg') (hleast' p g hp hg)
      rw [← hp, ← hp', hsame]

/-- A goal is the end of the walk that goes nowhere. -/
theorem leftmost_of_goal (h : goal x = true) : Leftmost children goal x (some x) :=
  ⟨h, [], rfl, fun q _ _ _ => nil_le_positions q⟩

/-- The walks from a node that is no goal begin with one of its children. -/
theorem leftmost_of_children (h : goal x = false) (hr : LeftmostOf children goal (children x) r) :
    Leftmost children goal x r := by
  cases r with
  | none =>
    rintro (_ | ⟨i, p⟩) y hy
    · obtain rfl := Option.some.inj hy
      exact h
    · obtain ⟨z, hz, hwalk⟩ := Option.bind_eq_some_iff.mp hy
      exact hr i z p y hz hwalk
  | some g =>
    obtain ⟨hg, i, z, p, hz, hwalk, hleast⟩ := hr
    refine ⟨hg, i :: p, Option.bind_eq_some_iff.mpr ⟨z, hz, hwalk⟩, ?_⟩
    rintro (_ | ⟨j, q⟩) y hy hgoal
    · obtain rfl := Option.some.inj hy
      rw [h] at hgoal
      cases hgoal
    · obtain ⟨z', hz', hwalk'⟩ := Option.bind_eq_some_iff.mp hy
      exact hleast j z' q y hz' hwalk' hgoal

/-- A walk to a goal from the first node is to the left of those from the
others. -/
theorem leftmostOf_cons_some (h : Leftmost children goal x (some g)) :
    LeftmostOf children goal (x :: l) (some g) := by
  obtain ⟨hg, p, hp, hleast⟩ := h
  refine ⟨hg, 0, x, p, rfl, hp, ?_⟩
  rintro (_ | j) z q y hz hy hgoal
  · obtain rfl := Option.some.inj hz
    exact cons_le_cons_positions.mpr (Or.inr ⟨rfl, hleast q y hy hgoal⟩)
  · exact cons_le_cons_positions.mpr (Or.inl j.succ_pos)

/-- Where none leads from the first node to a goal, those from the others
count. -/
theorem leftmostOf_cons_none (h : Leftmost children goal x none)
    (hl : LeftmostOf children goal l r) : LeftmostOf children goal (x :: l) r := by
  cases r with
  | none =>
    rintro (_ | i) z p y hz hy
    · obtain rfl := Option.some.inj hz
      exact h p y hy
    · exact hl i z p y hz hy
  | some g =>
    obtain ⟨hg, i, z, p, hz, hp, hleast⟩ := hl
    refine ⟨hg, i + 1, z, p, hz, hp, ?_⟩
    rintro (_ | j) z' q y hz' hy hgoal
    · obtain rfl := Option.some.inj hz'
      rw [h q y hy] at hgoal
      cases hgoal
    · obtain hlt | ⟨heq, hle⟩ := cons_le_cons_positions.mp (hleast j z' q y hz' hy hgoal)
      · exact cons_le_cons_positions.mpr (Or.inl (Nat.succ_lt_succ hlt))
      · exact cons_le_cons_positions.mpr (Or.inr ⟨congrArg Nat.succ heq, hle⟩)

/-! ### The search -/

variable (children goal) in
/-- The search is over with some nodes, whatever is behind them: it has found a
goal, or goes on with the rest. -/
def Done (l : List α) (r : Option α) : Prop :=
  ∃ n, ∀ m rest, depthFirst children goal (n + m) (l ++ rest) =
    match r with
    | some g => some (some g)
    | none => depthFirst children goal m rest

theorem done_nil : Done children goal [] none := ⟨0, fun m rest => by rw [Nat.zero_add]; rfl⟩

/-- The search is over with a node when it is over with its children. -/
theorem done_of_children (h : goal x = false) (hr : Done children goal (children x) r) :
    Done children goal [x] r := by
  obtain ⟨n, hn⟩ := hr
  refine ⟨n + 1, fun m rest => ?_⟩
  rw [Nat.add_right_comm, List.singleton_append, depthFirst, h, if_neg Bool.false_ne_true, hn]

theorem done_of_goal (h : goal x = true) : Done children goal [x] (some x) := by
  refine ⟨1, fun m rest => ?_⟩
  rw [Nat.add_comm, List.singleton_append, depthFirst, if_pos h]

theorem done_cons_some (h : Done children goal [x] (some g)) :
    Done children goal (x :: l) (some g) := by
  obtain ⟨n, hn⟩ := h
  exact ⟨n, fun m rest => hn m (l ++ rest)⟩

theorem done_cons_none (h : Done children goal [x] none) (hl : Done children goal l r) :
    Done children goal (x :: l) r := by
  obtain ⟨n, hn⟩ := h
  obtain ⟨k, hk⟩ := hl
  refine ⟨n + k, fun m rest => ?_⟩
  rw [Nat.add_assoc]
  exact (hn (k + m) (l ++ rest)).trans (hk m rest)

/-- What holds of each node of a list holds of the list. -/
theorem exists_done_list (h : ∀ y ∈ l, ∃ r, Done children goal [y] r ∧ Leftmost children goal y r) :
    ∃ r, Done children goal l r ∧ LeftmostOf children goal l r := by
  induction l with
  | nil => exact ⟨none, done_nil, fun i x p y hx => by cases hx⟩
  | cons x l ih =>
    obtain ⟨r, hdone, hleft⟩ := h x List.mem_cons_self
    cases r with
    | some g => exact ⟨some g, done_cons_some hdone, leftmostOf_cons_some hleft⟩
    | none =>
      obtain ⟨r, hdone', hleft'⟩ := ih fun y hy => h y (List.mem_cons_of_mem _ hy)
      exact ⟨r, done_cons_none hdone hdone', leftmostOf_cons_none hleft hleft'⟩

variable (goal) in
theorem exists_done (hwf : WellFounded fun y x => y ∈ children x) (x : α) :
    ∃ r, Done children goal [x] r ∧ Leftmost children goal x r := by
  induction x using hwf.induction with
  | _ x ih =>
    cases h : goal x with
    | true => exact ⟨some x, done_of_goal h, leftmost_of_goal h⟩
    | false =>
      obtain ⟨r, hdone, hleft⟩ := exists_done_list ih
      exact ⟨r, done_of_children h hdone, leftmost_of_children h hleft⟩

variable (goal) in
/-- **The search ends, with the end of the leftmost walk to a goal.** -/
theorem exists_depthFirst (hwf : WellFounded fun y x => y ∈ children x) (x : α) :
    ∃ n r, (∀ m, n ≤ m → depthFirst children goal m [x] = some r) ∧
      Leftmost children goal x r := by
  obtain ⟨r, ⟨n, hn⟩, hleft⟩ := exists_done goal hwf x
  refine ⟨n + 1, r, fun m hm => ?_, hleft⟩
  obtain ⟨k, rfl⟩ := Nat.exists_eq_add_of_le hm
  have hrun := hn (k + 1) []
  rw [List.append_nil] at hrun
  rw [Nat.add_assoc, Nat.add_comm 1 k, hrun]
  cases r with
  | none => rfl
  | some g => rfl

end Lib
