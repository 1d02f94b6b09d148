import Mathlib.Algebra.BigOperators.Group.List.Basic
import Mathlib.Data.List.Nodup

/-!
# Thread pools

Where the state of a machine holds a list of threads, a step takes the thread at
some index and replaces it by what is left of it, or removes it where nothing is
(`Lib.advance`). Up to order, the pool is that thread and the others, before
(`Lib.perm_cons_eraseIdx`) and after (`Lib.perm_advance`); what a step does to
membership, to a count and to a sum over the pool follows.

At the end, two facts about lists: what grows at the end keeps its entries, and
lists with no repetitions among them do not share an element
(`Lib.eq_of_nodup_flatten`).
-/

namespace Lib

variable {α : Type*}

/-- The pool after thread `k` has gone on to `next`, or has ended. -/
def advance (l : List α) (k : ℕ) : Option α → List α
  | none => l.eraseIdx k
  | some y => l.set k y

/-- A pool is the thread at an index and the others. -/
theorem perm_cons_eraseIdx {l : List α} {k : ℕ} {x : α} (h : l[k]? = some x) :
    l.Perm (x :: l.eraseIdx k) := by
  obtain ⟨hk, rfl⟩ := List.getElem?_eq_some_iff.mp h
  exact (List.getElem_cons_eraseIdx_perm hk).symm

/-- **After a step, a pool is what the thread has become and the others.** -/
theorem perm_advance {l : List α} {k : ℕ} {x : α} (h : l[k]? = some x) (next : Option α) :
    (advance l k next).Perm (next.toList ++ l.eraseIdx k) := by
  obtain ⟨hk, -⟩ := List.getElem?_eq_some_iff.mp h
  cases next with
  | none => exact List.Perm.refl _
  | some y => exact List.set_perm_cons_eraseIdx hk y

theorem mem_advance {l : List α} {k : ℕ} {x y : α} (h : l[k]? = some x) {next : Option α} :
    y ∈ advance l k next ↔ next = some y ∨ y ∈ l.eraseIdx k := by
  rw [(perm_advance h next).mem_iff, List.mem_append, Option.mem_toList]

theorem mem_iff_eq_or_mem_eraseIdx {l : List α} {k : ℕ} {x y : α} (h : l[k]? = some x) :
    y ∈ l ↔ y = x ∨ y ∈ l.eraseIdx k := by
  rw [(perm_cons_eraseIdx h).mem_iff, List.mem_cons]

/-- After a step, a thread is the one that has moved or one of the others. -/
theorem mem_set_of_some {l : List α} {k : ℕ} {x y z : α} (h : l[k]? = some x) :
    z ∈ l.set k y ↔ z = y ∨ z ∈ l.eraseIdx k := by
  obtain ⟨hk, -⟩ := List.getElem?_eq_some_iff.mp h
  rw [(List.set_perm_cons_eraseIdx hk y).mem_iff, List.mem_cons]

/-- Reading a pool in which one thread has moved. -/
theorem getElem?_set_of_some {l : List α} {k : ℕ} {x : α} (h : l[k]? = some x) (y : α) (j : ℕ) :
    (l.set k y)[j]? = if j = k then some y else l[j]? := by
  have hk : k < l.length := (List.getElem?_eq_some_iff.mp h).1
  rw [List.getElem?_set]
  by_cases hj : j = k
  · rw [if_pos hj.symm, if_pos hk, if_pos hj]
  · rw [if_neg fun heq => hj heq.symm, if_neg hj]

/-- What a thread is replaced by shows. -/
theorem eq_of_set_eq {l : List α} {k : ℕ} {x y z : α} (h : l[k]? = some x)
    (heq : l.set k y = l.set k z) : y = z := by
  have hy := getElem?_set_of_some h y k
  have hz := getElem?_set_of_some h z k
  rw [heq, hz, if_pos rfl, if_pos rfl] at hy
  exact (Option.some.inj hy).symm

/-- What a move does not change is the same throughout the pool. -/
theorem map_set_of_eq {β : Type*} {f : α → β} {l : List α} {k : ℕ} {x y : α}
    (h : l[k]? = some x) (hf : f y = f x) : (l.set k y).map f = l.map f := by
  obtain ⟨hk, rfl⟩ := List.getElem?_eq_some_iff.mp h
  rw [List.map_set, hf, ← List.getElem_map f (h := by rwa [List.length_map]), List.set_getElem_self]

/-- **The first thread of a kind leaves**: it was the head of its kind. -/
theorem filter_eq_cons_eraseIdx {p : α → Bool} {l : List α} {k : ℕ} {x : α} (h : l[k]? = some x)
    (hx : p x = true) (hfirst : ∀ y ∈ l.take k, p y = false) :
    l.filter p = x :: (l.eraseIdx k).filter p := by
  obtain ⟨hk, rfl⟩ := List.getElem?_eq_some_iff.mp h
  have hnil : (l.take k).filter p = [] :=
    List.filter_eq_nil_iff.mpr fun y hy => Bool.eq_false_iff.mp (hfirst y hy)
  rw [List.eraseIdx_eq_take_drop_succ, List.filter_append, hnil, List.nil_append]
  conv_lhs => rw [← List.take_append_drop k l, List.filter_append, hnil, List.nil_append,
    List.drop_eq_getElem_cons hk, List.filter_cons_of_pos hx]

/-- A thread of another kind leaves. -/
theorem filter_eraseIdx_of_neg {p : α → Bool} {l : List α} {k : ℕ} {x : α} (h : l[k]? = some x)
    (hx : p x = false) : (l.eraseIdx k).filter p = l.filter p := by
  obtain ⟨hk, rfl⟩ := List.getElem?_eq_some_iff.mp h
  conv_rhs => rw [← List.take_append_drop k l, List.filter_append, List.drop_eq_getElem_cons hk,
    List.filter_cons_of_neg (Bool.eq_false_iff.mp hx)]
  rw [List.eraseIdx_eq_take_drop_succ, List.filter_append]

section Count

variable (p : α → Bool)

theorem countP_eraseIdx {l : List α} {k : ℕ} {x : α} (h : l[k]? = some x) :
    l.countP p = (l.eraseIdx k).countP p + if p x then 1 else 0 := by
  rw [(perm_cons_eraseIdx h).countP_eq, List.countP_cons]

theorem countP_advance {l : List α} {k : ℕ} {x : α} (h : l[k]? = some x) (next : Option α) :
    (advance l k next).countP p = next.toList.countP p + (l.eraseIdx k).countP p := by
  rw [(perm_advance h next).countP_eq, List.countP_append]

end Count

section Sum

variable {β : Type*} [AddCommMonoid β] (f : α → β)

/-- A sum over a pool, with one thread singled out. -/
theorem sum_map_eraseIdx {l : List α} {k : ℕ} {x : α} (h : l[k]? = some x) :
    (l.map f).sum = f x + ((l.eraseIdx k).map f).sum := by
  rw [((perm_cons_eraseIdx h).map f).sum_eq, List.map_cons, List.sum_cons]

/-- A sum over a pool in which one thread has moved. -/
theorem sum_map_set {l : List α} {k : ℕ} {x : α} (h : l[k]? = some x) (y : α) :
    ((l.set k y).map f).sum = f y + ((l.eraseIdx k).map f).sum := by
  have hperm : (l.set k y).Perm (y :: l.eraseIdx k) := perm_advance h (some y)
  rw [(hperm.map f).sum_eq, List.map_cons, List.sum_cons]

end Sum

/-- What only grows at the end keeps its entries. -/
theorem getElem?_of_prefix {l l' : List α} (h : l <+: l') {k : ℕ} {x : α}
    (hk : l[k]? = some x) : l'[k]? = some x := by
  obtain ⟨r, rfl⟩ := h
  rw [List.getElem?_append_left (List.getElem?_eq_some_iff.mp hk).1, hk]

/-- Lists that have nothing in common, up to `f`, and yet have something in common
are one list. -/
theorem eq_of_nodup_flatten {β : Type*} {f : α → β} {l : List (List α)}
    (h : (l.flatten.map f).Nodup) {a b : List α} (ha : a ∈ l) (hb : b ∈ l) {x y : α}
    (hx : x ∈ a) (hy : y ∈ b) (hxy : f x = f y) : a = b := by
  rw [List.map_flatten, List.nodup_flatten] at h
  have hpairs : l.Pairwise fun a b => ∀ x ∈ a, ∀ y ∈ b, f x = f y → a = b := by
    refine (List.pairwise_map.mp h.2).imp fun hdisjoint x hx y hy hxy => ?_
    exact (hdisjoint (List.mem_map_of_mem hx) (hxy ▸ List.mem_map_of_mem hy)).elim
  have hflip : l.Pairwise fun b a => ∀ x ∈ a, ∀ y ∈ b, f x = f y → a = b :=
    hpairs.imp fun h x hx y hy hxy => (h y hy x hx hxy.symm).symm
  exact hpairs.forall_of_forall_of_flip (fun _ _ _ _ _ _ _ => rfl) hflip ha hb x hx y hy hxy

end Lib
