import Mathlib.Data.List.Nodup
import Mathlib.Data.List.Perm.Subperm
import Mathlib.Order.Lattice
import UsbipIce.Lib.Search

/-!
# Keys of a stream that is read in chunks

A reader looks for keys of several kinds in a stream. It gets the stream in
chunks, searches each chunk on its own, once for each kind and in a fixed order
of kinds, and reports the first key of that kind.

Cutting the stream differently, it may report something else: a key that a cut
falls into is missed, or reported as another one; a second key of a kind in one
chunk is missed; and keys of different kinds are reported in the order of kinds.
These are all the ways in which it goes wrong. The reader reports exactly the keys
of the stream, in their order, **if and only if** every key ends in the chunk it
begins in, and the kinds of the keys that begin in a chunk increase
(`Lib.Keys.read_eq_iff`).

The patterns have to be local (`Lib.Keys.extend`, `Lib.Keys.within`): what a
pattern finds at a position of a chunk it finds there in the stream as well, and
it finds the same in the chunk as in the stream exactly where that ends in the
chunk.
-/

namespace Lib

/-- Keys `σ` of kinds `ι` in texts over `α`, with their patterns: a pattern
answers with the key found at the beginning of a text, and its length. -/
structure Keys (α ι σ : Type*) [LinearOrder ι] where
  /-- The kinds, in the order in which they are searched for. -/
  kinds : List ι
  pattern : ι → List α → Option (σ × ℕ)
  kind : σ → ι
  sorted : kinds.Pairwise (· < ·)
  complete : ∀ i, i ∈ kinds
  kind_eq : ∀ {i l s n}, pattern i l = some (s, n) → kind s = i
  nil : ∀ i, pattern i [] = none
  /-- What is found in a chunk is found, longer or not, in the stream. -/
  extend : ∀ {i l s n} (t : List α), pattern i l = some (s, n) →
    ∃ s' n', pattern i (l ++ t) = some (s', n')
  /-- A key of the stream is found in the chunk exactly where it ends there. -/
  within : ∀ {i l t s n}, pattern i (l ++ t) = some (s, n) →
    ((pattern i l).map Prod.fst = some s ↔ n ≤ l.length)

namespace Keys

variable {α ι σ : Type*} [LinearOrder ι] (K : Keys α ι σ)

/-! ### Reading -/

/-- The first key of a kind in a text. -/
def find (i : ι) (data : List α) : Option σ := (search (K.pattern i) data).map Prod.fst

/-- **What the reader reports of a chunk.** -/
def read (data : List α) : List σ := K.kinds.filterMap fun i => K.find i data

/-- The keys at the beginning of a text. -/
def begins (l : List α) : List σ := K.kinds.filterMap fun i => (K.pattern i l).map Prod.fst

/-- The keys that begin in a text, which goes on as `t`. -/
def keysIn : List α → List α → List σ
  | [], _ => []
  | x :: l, t => K.begins (x :: (l ++ t)) ++ keysIn l t

/-- Every key that begins in the text ends in it. -/
def Whole (l t : List α) : Prop :=
  ∀ l', l' <:+ l → l' ≠ [] → ∀ i s n, K.pattern i (l' ++ t) = some (s, n) → n ≤ l'.length

/-- **The chunks keep the keys apart**: every key ends in the chunk it begins in,
and the kinds of the keys that begin in a chunk increase. -/
def Apart : List (List α) → Prop
  | [] => True
  | c :: cs => (K.Whole c cs.flatten ∧ (K.keysIn c cs.flatten).Pairwise fun s s' =>
      K.kind s < K.kind s') ∧ Apart cs

variable {K} {i : ι} {s : σ} {n : ℕ} {x : α} {l t c : List α}

/-! ### Keys and patterns -/

theorem mem_begins : s ∈ K.begins l ↔ ∃ n, K.pattern (K.kind s) l = some (s, n) := by
  rw [begins, List.mem_filterMap]
  constructor
  · rintro ⟨i, -, h⟩
    obtain ⟨⟨s', n⟩, hpattern, rfl⟩ := Option.map_eq_some_iff.mp h
    exact ⟨n, by rw [K.kind_eq hpattern]; exact hpattern⟩
  · rintro ⟨n, h⟩
    exact ⟨K.kind s, K.complete _, by rw [h, Option.map_some]⟩

/-- At most one key of a kind begins at a position. -/
@[simp] theorem find_begins (i : ι) (l : List α) :
    (K.begins l).find? (fun s => K.kind s = i) = (K.pattern i l).map Prod.fst := by
  cases h : K.pattern i l with
  | none =>
    refine List.find?_eq_none.mpr fun s hs hk => ?_
    obtain ⟨n, hn⟩ := mem_begins.mp hs
    rw [of_decide_eq_true hk, h] at hn
    cases hn
  | some x =>
    obtain ⟨s, n⟩ := x
    have hs : s ∈ K.begins l := mem_begins.mpr ⟨n, by rw [K.kind_eq h]; exact h⟩
    cases hfind : (K.begins l).find? fun s => K.kind s = i with
    | none =>
      exact absurd (decide_eq_true (K.kind_eq h)) (List.find?_eq_none.mp hfind s hs)
    | some s' =>
      obtain ⟨n', hn'⟩ := mem_begins.mp (List.mem_of_find?_eq_some hfind)
      have hk : K.kind s' = i := by simpa using List.find?_some hfind
      rw [hk, h] at hn'
      exact congrArg some (Prod.mk.inj (Option.some.inj hn')).1.symm

/-- The kinds of the keys at one position increase. -/
theorem pairwise_begins (K : Keys α ι σ) (l : List α) :
    (K.begins l).Pairwise fun s s' => K.kind s < K.kind s' := by
  refine List.pairwise_filterMap.mpr (K.sorted.imp fun hlt s hs s' hs' => ?_)
  obtain ⟨⟨_, _⟩, hp, rfl⟩ := Option.map_eq_some_iff.mp hs
  obtain ⟨⟨_, _⟩, hp', rfl⟩ := Option.map_eq_some_iff.mp hs'
  rw [K.kind_eq hp, K.kind_eq hp']
  exact hlt

@[simp] theorem keysIn_nil (t : List α) : K.keysIn [] t = [] := rfl

@[simp] theorem keysIn_cons (x : α) (l t : List α) :
    K.keysIn (x :: l) t = K.begins (x :: (l ++ t)) ++ K.keysIn l t := rfl

@[simp] theorem keysIn_append (a b t : List α) :
    K.keysIn (a ++ b) t = K.keysIn a (b ++ t) ++ K.keysIn b t := by
  induction a with
  | nil => rfl
  | cons x a ih =>
    simp [ih]

theorem Whole.tail (h : K.Whole (x :: l) t) : K.Whole l t :=
  fun l' hl' hne => h l' (hl'.trans (List.suffix_cons x l)) hne

theorem Whole.head (h : K.Whole (x :: l) t) (hp : K.pattern i (x :: (l ++ t)) = some (s, n)) :
    n ≤ l.length + 1 :=
  h (x :: l) (List.suffix_refl _) (List.cons_ne_nil x l) i s n hp

theorem whole_cons (hhead : ∀ i s n, K.pattern i (x :: (l ++ t)) = some (s, n) → n ≤ l.length + 1)
    (h : K.Whole l t) : K.Whole (x :: l) t := by
  intro l' hl' hne i s n hp
  obtain rfl | hl' := List.suffix_cons_iff.mp hl'
  · exact hhead i s n hp
  · exact h l' hl' hne i s n hp

/-! ### Searching -/

@[simp] theorem find_nil (i : ι) : K.find i [] = none := by
  rw [find, search, K.nil]
  rfl

@[simp] theorem find_cons (i : ι) (x : α) (l : List α) :
    K.find i (x :: l) = ((K.pattern i (x :: l)).map Prod.fst).or (K.find i l) := by
  rw [find, search, Option.map_or]
  rfl

theorem kind_of_find (h : K.find i l = some s) : K.kind s = i := by
  induction l with
  | nil =>
    simp at h
  | cons x l ih =>
    rw [find_cons] at h
    cases hp : K.pattern i (x :: l) with
    | none =>
      rw [hp, Option.map_none, Option.none_or] at h
      exact ih h
    | some y =>
      obtain ⟨s', n⟩ := y
      rw [hp, Option.map_some, Option.some_or] at h
      obtain rfl := Option.some.inj h
      exact K.kind_eq hp

/-- A key of the kind begins where one is found. -/
theorem exists_keysIn_of_find (t : List α) (h : K.find i l = some s) :
    ∃ s' ∈ K.keysIn l t, K.kind s' = i := by
  induction l with
  | nil =>
    simp at h
  | cons x l ih =>
    rw [find_cons] at h
    cases hp : K.pattern i (x :: l) with
    | none =>
      rw [hp, Option.map_none, Option.none_or] at h
      obtain ⟨s', hs', hk⟩ := ih h
      exact ⟨s', List.mem_append_right _ hs', hk⟩
    | some y =>
      obtain ⟨s', n', hp'⟩ := K.extend t hp
      have hk := K.kind_eq hp'
      exact ⟨s', List.mem_append_left _ (mem_begins.mpr ⟨n', by rw [hk]; exact hp'⟩), hk⟩

/-- Where the keys are whole, the search finds the first of its kind. -/
theorem find_of_whole (h : K.Whole l t) (i : ι) :
    K.find i l = (K.keysIn l t).find? fun s => K.kind s = i := by
  induction l with
  | nil => exact find_nil i
  | cons x l ih =>
    rw [find_cons, keysIn_cons, List.find?_append, find_begins, ih h.tail]
    congr 1
    cases hp : K.pattern i (x :: (l ++ t)) with
    | none =>
      cases hp' : K.pattern i (x :: l) with
      | none => rfl
      | some y =>
        obtain ⟨s', n', hext⟩ := K.extend t hp'
        rw [List.cons_append, hp] at hext
        cases hext
    | some y =>
      obtain ⟨s, n⟩ := y
      rw [Option.map_some]
      exact (K.within hp).mpr (h.head hp)

/-! ### What is read of a chunk -/

@[simp] theorem mem_read : s ∈ K.read l ↔ K.find (K.kind s) l = some s := by
  rw [read, List.mem_filterMap]
  constructor
  · rintro ⟨i, -, h⟩
    rw [kind_of_find h]
    exact h
  · exact fun h => ⟨K.kind s, K.complete _, h⟩

/-- The kinds of what is read increase. -/
theorem pairwise_read (K : Keys α ι σ) (l : List α) :
    (K.read l).Pairwise fun s s' => K.kind s < K.kind s' := by
  refine List.pairwise_filterMap.mpr (K.sorted.imp fun hlt s hs s' hs' => ?_)
  rw [kind_of_find hs, kind_of_find hs']
  exact hlt

/-- **No more is read than there are keys.** -/
theorem length_read_le (l t : List α) : (K.read l).length ≤ (K.keysIn l t).length := by
  have hnodup : ((K.read l).map K.kind).Nodup :=
    List.pairwise_map.mpr ((K.pairwise_read l).imp ne_of_lt)
  have hsub : (K.read l).map K.kind ⊆ (K.keysIn l t).map K.kind := by
    intro i hi
    obtain ⟨s, hs, rfl⟩ := List.mem_map.mp hi
    obtain ⟨s', hs', hk⟩ := exists_keysIn_of_find t (mem_read.mp hs)
    exact List.mem_map.mpr ⟨s', hs', hk⟩
  simpa only [List.length_map] using (hnodup.subperm hsub).length_le

/-- Keys of increasing kinds are told by which of them there are. -/
theorem eq_of_pairwise {l₁ l₂ : List σ} (h₁ : l₁.Pairwise fun s s' => K.kind s < K.kind s')
    (h₂ : l₂.Pairwise fun s s' => K.kind s < K.kind s') (h : ∀ s, s ∈ l₁ ↔ s ∈ l₂) : l₁ = l₂ := by
  have hne : ∀ {s s'}, K.kind s < K.kind s' → s ≠ s' := fun hlt heq =>
    absurd (congrArg K.kind heq) (ne_of_lt hlt)
  have hperm : l₁.Perm l₂ := (List.perm_ext_iff_of_nodup (h₁.imp hne) (h₂.imp hne)).mpr h
  have hanti : ∀ s s', K.kind s < K.kind s' → K.kind s' < K.kind s → s = s' :=
    fun s s' hlt hlt' => absurd hlt' (not_lt_of_gt hlt)
  exact hperm.eq_of_pairwise (fun s s' _ _ => hanti s s') h₁ h₂

/-- Where the keys are of different kinds and all found, none is cut. -/
theorem whole_of_found (hne : (K.keysIn l t).Pairwise fun s s' => K.kind s ≠ K.kind s')
    (h : ∀ s ∈ K.keysIn l t, K.find (K.kind s) l = some s) : K.Whole l t := by
  induction l with
  | nil => exact fun l' hl' hne => absurd (List.suffix_nil.mp hl') hne
  | cons x l ih =>
    rw [keysIn_cons] at hne h
    obtain ⟨-, hrest, hcross⟩ := List.pairwise_append.mp hne
    refine whole_cons (fun i s n hp => ?_) (ih hrest fun s hs => ?_)
    · have hk := K.kind_eq hp
      have hs : s ∈ K.begins (x :: (l ++ t)) := mem_begins.mpr ⟨n, by rw [hk]; exact hp⟩
      have hfind := h s (List.mem_append_left _ hs)
      rw [hk, find_cons] at hfind
      cases hp' : K.pattern i (x :: l) with
      | none =>
        -- it is found further on, so there are two of its kind
        rw [hp', Option.map_none, Option.none_or] at hfind
        obtain ⟨s', hs', hk'⟩ := exists_keysIn_of_find t hfind
        exact absurd (hk.trans hk'.symm) (hcross s hs s' hs')
      | some y =>
        rw [hp', Option.map_some, Option.some_or] at hfind
        refine (K.within (l := x :: l) hp).mp ?_
        rw [hp', Option.map_some]
        exact hfind
    · have hfind := h s (List.mem_append_right _ hs)
      rw [find_cons] at hfind
      cases hp' : K.pattern (K.kind s) (x :: l) with
      | none =>
        rwa [hp', Option.map_none, Option.none_or] at hfind
      | some y =>
        -- a key of its kind begins before it
        obtain ⟨s', n', hext⟩ := K.extend t hp'
        have hk' := K.kind_eq hext
        have hs' : s' ∈ K.begins (x :: (l ++ t)) := mem_begins.mpr ⟨n', by rw [hk']; exact hext⟩
        exact absurd hk' (hcross s' hs' s hs)

/-- **What is read of a chunk are its keys** exactly where they are whole and of
increasing kinds. -/
theorem read_eq_keysIn_iff (l t : List α) :
    K.read l = K.keysIn l t ↔
      K.Whole l t ∧ (K.keysIn l t).Pairwise fun s s' => K.kind s < K.kind s' := by
  constructor
  · intro h
    have hpair : (K.keysIn l t).Pairwise fun s s' => K.kind s < K.kind s' := by
      rw [← h]
      exact K.pairwise_read l
    refine ⟨whole_of_found (hpair.imp ne_of_lt) fun s hs => ?_, hpair⟩
    rw [← h] at hs
    exact mem_read.mp hs
  · rintro ⟨hwhole, hpair⟩
    refine eq_of_pairwise (K.pairwise_read l) hpair fun s => ?_
    rw [mem_read, find_of_whole hwhole]
    constructor
    · exact List.mem_of_find?_eq_some
    · intro hs
      cases hfind : (K.keysIn l t).find? fun s' => K.kind s' = K.kind s with
      | none => exact absurd (decide_eq_true rfl) (List.find?_eq_none.mp hfind s hs)
      | some s' =>
        have hk : K.kind s' = K.kind s := by simpa using List.find?_some hfind
        have hnodup : ((K.keysIn l t).map K.kind).Nodup :=
          List.pairwise_map.mpr (hpair.imp ne_of_lt)
        rw [List.inj_on_of_nodup_map hnodup (List.mem_of_find?_eq_some hfind) hs hk]

/-! ### Every way of cutting -/

theorem length_flatMap_read_le (cs : List (List α)) :
    (cs.flatMap K.read).length ≤ (K.keysIn cs.flatten []).length := by
  induction cs with
  | nil => exact Nat.le_refl 0
  | cons c cs ih =>
    rw [List.flatMap_cons, List.flatten_cons, keysIn_append, List.append_nil, List.length_append,
      List.length_append]
    exact Nat.add_le_add (length_read_le c cs.flatten) ih

/-- **The exact condition.** However the stream is cut, its keys are read, in
their order, exactly where the chunks keep them apart. -/
theorem read_eq_iff (cs : List (List α)) :
    cs.flatMap K.read = K.keysIn cs.flatten [] ↔ K.Apart cs := by
  induction cs with
  | nil => exact iff_of_true rfl trivial
  | cons c cs ih =>
    rw [List.flatMap_cons, List.flatten_cons, keysIn_append, List.append_nil, Apart,
      ← read_eq_keysIn_iff, ← ih]
    constructor
    · intro h
      -- no part is longer than the keys it is read from, so the parts agree
      have hlen := congrArg List.length h
      rw [List.length_append, List.length_append] at hlen
      have hhead := length_read_le (K := K) c cs.flatten
      have htail := length_flatMap_read_le (K := K) cs
      exact List.append_inj h (by omega)
    · rintro ⟨hhead, htail⟩
      rw [hhead, htail]

end Keys

end Lib
