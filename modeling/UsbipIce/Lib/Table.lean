import Mathlib.Data.List.Nodup
import Mathlib.Data.List.Perm.Subperm

/-!
# Tables with a key

A table is a list of rows no two of which have the same key. The key discipline
is a field, so a table that breaks it cannot be built: the operation that could
break it, `Lib.Table.insert?`, answers `none` instead, as an `INSERT` that
violates a primary key raises.

The same type serves for a relational table, whose key is a projection of its
rows, and for a dictionary, whose rows are pairs and whose key is the first
component; `Lib.Table.put` is the assignment of a dictionary, which overwrites
in place.

The last part is what `LIMIT` may return (`Lib.IsLimit`): some of the rows of a
query, as many as asked for or as there are, in some order.
-/

namespace Lib

/-- A list of rows with pairwise distinct keys. -/
@[ext] structure Table (ρ : Type*) {κ : Type*} (key : ρ → κ) where
  /-- The rows, in insertion order. -/
  rows : List ρ
  /-- No two rows have the same key. -/
  nodup : (rows.map key).Nodup

namespace Table

variable {ρ κ : Type*} {key : ρ → κ}

instance : Membership ρ (Table ρ key) := ⟨fun t r => r ∈ t.rows⟩

instance [DecidableEq ρ] (t : Table ρ key) (r : ρ) : Decidable (r ∈ t) :=
  inferInstanceAs (Decidable (r ∈ t.rows))

instance (t : Table ρ key) (p : ρ → Prop) [DecidablePred p] : Decidable (∀ r ∈ t, p r) :=
  inferInstanceAs (Decidable (∀ r ∈ t.rows, p r))

/-- The keys present in a table. -/
def keys (t : Table ρ key) : List κ := t.rows.map key

/-- The table without rows. -/
def empty : Table ρ key := ⟨[], List.nodup_nil⟩

instance : EmptyCollection (Table ρ key) := ⟨empty⟩

theorem mem_def {t : Table ρ key} {r : ρ} : r ∈ t ↔ r ∈ t.rows := Iff.rfl

theorem mem_keys {t : Table ρ key} {k : κ} : k ∈ t.keys ↔ ∃ r ∈ t, key r = k :=
  List.mem_map

@[simp] theorem key_mem_keys {t : Table ρ key} {r : ρ} (h : r ∈ t) : key r ∈ t.keys :=
  mem_keys.mpr ⟨r, h, rfl⟩

@[simp] theorem not_mem_empty (r : ρ) : r ∉ (∅ : Table ρ key) := List.not_mem_nil

/-- **A key names at most one row.** -/
theorem eq_of_key_eq {t : Table ρ key} {r r' : ρ} (h : r ∈ t) (h' : r' ∈ t)
    (hk : key r = key r') : r = r' :=
  List.inj_on_of_nodup_map t.nodup h h' hk

/-- **A join on a key repeats nothing**: rows joined with different keys stay
apart. -/
theorem nodup_flatMap_of_key {α β : Type*} {l : List α} {f : α → List β} {k : α → κ}
    (hl : (l.map k).Nodup) (hf : ∀ a ∈ l, (f a).Nodup)
    (hk : ∀ a ∈ l, ∀ a' ∈ l, ∀ b ∈ f a, b ∈ f a' → k a = k a') : (l.flatMap f).Nodup := by
  refine List.nodup_flatMap.mpr ⟨hf, (List.pairwise_map.mp hl).imp_of_mem ?_⟩
  intro a a' ha ha' hne b hb hb'
  exact hne (hk a ha a' ha' b hb hb')

/-! ### Deleting and updating -/

/-- The rows that `p` does not select, as `DELETE … WHERE p` leaves them. -/
def delete (t : Table ρ key) (p : ρ → Bool) : Table ρ key where
  rows := t.rows.filter fun r => !p r
  nodup := t.nodup.sublist (List.filter_sublist.map key)

/-- The rows with `f` applied where `p` selects, as `UPDATE … WHERE p` leaves
them; the update must not touch the key. -/
def update (t : Table ρ key) (p : ρ → Bool) (f : ρ → ρ) (hf : ∀ r, key (f r) = key r) :
    Table ρ key where
  rows := t.rows.map fun r => if p r then f r else r
  nodup := by
    have hkey : (key ∘ fun r => if p r then f r else r) = key := by
      funext r
      by_cases h : p r = true <;> simp [Function.comp_apply, h, hf]
    rw [List.map_map, hkey]
    exact t.nodup

@[simp] theorem mem_delete {t : Table ρ key} {p : ρ → Bool} {r : ρ} :
    r ∈ t.delete p ↔ r ∈ t ∧ p r = false := by
  simp [mem_def, delete]

/-- Deleting the rows of a key deletes the key. -/
theorem mem_keys_delete {t : Table ρ key} {p : ρ → Bool} {k x : κ}
    (hp : ∀ r, p r = true ↔ key r = k) : x ∈ (t.delete p).keys ↔ x ∈ t.keys ∧ x ≠ k := by
  simp only [mem_keys, mem_delete, Bool.eq_false_iff, ne_eq, hp]
  constructor
  · rintro ⟨r, ⟨hr, hne⟩, rfl⟩
    exact ⟨⟨r, hr, rfl⟩, hne⟩
  · rintro ⟨⟨r, hr, rfl⟩, hne⟩
    exact ⟨r, ⟨hr, hne⟩, rfl⟩

theorem mem_update {t : Table ρ key} {p : ρ → Bool} {f : ρ → ρ} {hf : ∀ r, key (f r) = key r}
    {r : ρ} : r ∈ t.update p f hf ↔ ∃ r' ∈ t, (if p r' then f r' else r') = r :=
  List.mem_map

@[simp] theorem keys_update {t : Table ρ key} {p : ρ → Bool} {f : ρ → ρ}
    {hf : ∀ r, key (f r) = key r} : (t.update p f hf).keys = t.keys := by
  have hkey : (key ∘ fun r => if p r then f r else r) = key := by
    funext r
    by_cases h : p r = true <;> simp [Function.comp_apply, h, hf]
  simp only [keys, update, List.map_map, hkey]

/-! ### Mapping -/

/-- A dictionary with `f` applied to its values. -/
def mapValues {α β : Type*} (t : Table (κ × α) Prod.fst) (f : α → β) :
    Table (κ × β) Prod.fst where
  rows := t.rows.map fun p => (p.1, f p.2)
  nodup := by
    rw [List.map_map]
    exact t.nodup

/-! ### Inserting -/

section Insert

variable [DecidableEq κ]

/-- Adds a row, unless a row with its key is there already. -/
def insert? (t : Table ρ key) (r : ρ) : Option (Table ρ key) :=
  if h : key r ∈ t.keys then none
  else some
    { rows := t.rows ++ [r]
      nodup := by
        rw [List.map_append, List.map_singleton]
        exact t.nodup.append (List.nodup_singleton _) fun k hk hk' =>
          h (List.mem_singleton.mp hk' ▸ hk) }

/-- Adds all the rows of one `INSERT … SELECT`: either every one of them, or
none where one of them finds its key taken. -/
def insertAll? (t : Table ρ key) : List ρ → Option (Table ρ key)
  | [] => some t
  | r :: rs => (t.insert? r).bind fun t' => t'.insertAll? rs

/-- The row with a given key. -/
def find? (t : Table ρ key) (k : κ) : Option ρ := t.rows.find? fun r => decide (key r = k)

theorem insert?_rows {t t' : Table ρ key} {r : ρ} (h : t.insert? r = some t') :
    t'.rows = t.rows ++ [r] := by
  rw [insert?] at h
  split at h
  · cases h
  · rw [← Option.some.inj h]

@[simp]
theorem insert?_isSome {t : Table ρ key} {r : ρ} : (t.insert? r).isSome ↔ key r ∉ t.keys := by
  rw [insert?]
  split <;> simp [*]

/-- **What an insertion of many rows leaves**: the old rows followed by the new
ones. -/
theorem insertAll?_rows {t t' : Table ρ key} {rs : List ρ} (h : t.insertAll? rs = some t') :
    t'.rows = t.rows ++ rs := by
  induction rs generalizing t with
  | nil =>
    obtain rfl : t = t' := Option.some.inj h
    rw [List.append_nil]
  | cons r rs ih =>
    obtain ⟨u, hu, hrest⟩ := Option.bind_eq_some_iff.mp h
    rw [ih hrest, insert?_rows hu, List.append_assoc, List.singleton_append]

/-- **When an insertion of many rows goes through**: their keys are new and
pairwise distinct. -/
theorem insertAll?_isSome {t : Table ρ key} {rs : List ρ} (hnew : ∀ r ∈ rs, key r ∉ t.keys)
    (hdis : (rs.map key).Nodup) : (t.insertAll? rs).isSome := by
  induction rs generalizing t with
  | nil => rfl
  | cons r rs ih =>
    obtain ⟨hr, hrs⟩ := List.nodup_cons.mp hdis
    obtain ⟨u, hu⟩ := Option.isSome_iff_exists.mp
      (insert?_isSome.mpr (hnew r List.mem_cons_self))
    rw [insertAll?, hu, Option.bind_some]
    refine ih (fun r' hr' hmem => ?_) hrs
    have hkeys : u.keys = t.keys ++ [key r] := by
      rw [keys, insert?_rows hu, List.map_append, List.map_singleton]
      rfl
    rcases List.mem_append.mp (hkeys ▸ hmem) with hold | hnew'
    · exact hnew r' (List.mem_cons_of_mem _ hr') hold
    · exact hr (List.mem_map.mpr ⟨r', hr', List.mem_singleton.mp hnew'⟩)

/-- An insertion of many rows that goes through met no taken key. -/
theorem not_mem_keys_of_insertAll? {t t' : Table ρ key} {rs : List ρ}
    (h : t.insertAll? rs = some t') {r : ρ} (hr : r ∈ rs) : key r ∉ t.keys := by
  have hnd := t'.nodup
  rw [insertAll?_rows h, List.map_append] at hnd
  intro hmem
  exact (List.nodup_append.mp hnd).2.2 _ hmem _ (List.mem_map_of_mem hr) rfl

theorem find?_eq_some {t : Table ρ key} {k : κ} {r : ρ} :
    t.find? k = some r ↔ r ∈ t ∧ key r = k := by
  constructor
  · intro h
    exact ⟨List.mem_of_find?_eq_some h, by simpa using List.find?_some h⟩
  · rintro ⟨hr, rfl⟩
    obtain ⟨r', hr'⟩ : ∃ r', t.rows.find? (fun x => decide (key x = key r)) = some r' :=
      Option.isSome_iff_exists.mp (List.find?_isSome.mpr ⟨r, hr, by simp⟩)
    have hkey : key r' = key r := by simpa using List.find?_some hr'
    rw [find?, hr', eq_of_key_eq (List.mem_of_find?_eq_some hr') hr hkey]

@[simp] theorem find?_eq_none {t : Table ρ key} {k : κ} : t.find? k = none ↔ k ∉ t.keys := by
  simp [find?, keys, List.find?_eq_none]

/-- What is found in a dictionary whose values are mapped. -/
@[simp] theorem find?_mapValues {α β : Type*} {t : Table (κ × α) Prod.fst} {f : α → β} {k : κ} :
    (t.mapValues f).find? k = (t.find? k).map fun p => (p.1, f p.2) := by
  rw [find?, find?, mapValues, List.find?_map]
  rfl

/-- What an update leaves under a key. -/
@[simp]
theorem find?_update {t : Table ρ key} {p : ρ → Bool} {f : ρ → ρ} {hf : ∀ r, key (f r) = key r}
    {k : κ} : (t.update p f hf).find? k = (t.find? k).map fun r => if p r then f r else r := by
  cases hfind : t.find? k with
  | none =>
    rw [find?_eq_none] at hfind
    rwa [Option.map_none, find?_eq_none, keys_update]
  | some r =>
    obtain ⟨hr, rfl⟩ := find?_eq_some.mp hfind
    rw [Option.map_some, find?_eq_some, mem_update]
    refine ⟨⟨r, hr, rfl⟩, ?_⟩
    split
    · exact hf r
    · rfl

/-- What a deletion leaves under a key. -/
@[simp] theorem find?_delete {t : Table ρ key} {p : ρ → Bool} {k : κ} :
    (t.delete p).find? k = (t.find? k).filter fun r => !p r := by
  cases hfind : t.find? k with
  | none =>
    rw [find?_eq_none] at hfind
    rw [Option.filter_none, find?_eq_none, mem_keys]
    rintro ⟨r, hr, rfl⟩
    exact hfind (key_mem_keys (mem_delete.mp hr).1)
  | some r =>
    obtain ⟨hr, rfl⟩ := find?_eq_some.mp hfind
    cases hp : p r with
    | true =>
      rw [Option.filter_some, hp, Bool.not_true, if_neg Bool.false_ne_true, find?_eq_none, mem_keys]
      rintro ⟨r', hr', hk⟩
      obtain ⟨hr', hp'⟩ := mem_delete.mp hr'
      rw [eq_of_key_eq hr' hr hk, hp] at hp'
      cases hp'
    | false =>
      rw [Option.filter_some, hp]
      exact find?_eq_some.mpr ⟨mem_delete.mpr ⟨hr, hp⟩, rfl⟩

/-- What an insertion leaves under a key. -/
theorem find?_insert? {t t' : Table ρ key} {r : ρ} (h : t.insert? r = some t') (k : κ) :
    t'.find? k = if k = key r then some r else t.find? k := by
  have hmem : ∀ x, x ∈ t' ↔ x ∈ t ∨ x = r := fun x => by
    rw [mem_def, insert?_rows h, List.mem_append, List.mem_singleton, mem_def]
  split
  · rename_i hk
    exact find?_eq_some.mpr ⟨(hmem r).mpr (Or.inr rfl), hk.symm⟩
  · rename_i hk
    cases hfind : t.find? k with
    | none =>
      rw [find?_eq_none] at hfind ⊢
      rintro hk'
      obtain ⟨x, hx, rfl⟩ := mem_keys.mp hk'
      rcases (hmem x).mp hx with hx | rfl
      · exact hfind (key_mem_keys hx)
      · exact hk rfl
    | some x =>
      obtain ⟨hx, hxk⟩ := find?_eq_some.mp hfind
      exact find?_eq_some.mpr ⟨(hmem x).mpr (Or.inl hx), hxk⟩

private theorem filter_key_of_nodup (k : κ) : ∀ l : List ρ, (l.map key).Nodup →
    l.filter (fun r => decide (key r = k)) = (l.find? fun r => decide (key r = k)).toList
  | [], _ => rfl
  | r :: l, h => by
    obtain ⟨hr, hl⟩ := List.nodup_cons.mp h
    by_cases hk : key r = k
    · have hnone : l.filter (fun r => decide (key r = k)) = [] := by
        refine List.filter_eq_nil_iff.mpr fun x hx hxk => hr ?_
        rw [hk, ← of_decide_eq_true hxk]
        exact List.mem_map_of_mem hx
      rw [List.filter_cons_of_pos (by simpa using hk), List.find?_cons_of_pos (by simpa using hk),
        hnone]
      rfl
    · rw [List.filter_cons_of_neg (by simpa using hk), List.find?_cons_of_neg (by simpa using hk),
        filter_key_of_nodup k l hl]

/-- **A join on the key yields at most one row.** -/
@[simp] theorem filter_key (t : Table ρ key) (k : κ) :
    t.rows.filter (fun r => decide (key r = k)) = (t.find? k).toList :=
  filter_key_of_nodup k t.rows t.nodup

/-- The row with a key is all that a join on the key yields. -/
theorem filter_key_of_mem {t : Table ρ key} {r : ρ} {k : κ} (h : r ∈ t) (hk : key r = k) :
    t.rows.filter (fun x => decide (k = key x)) = [r] := by
  have hsame : ∀ x ∈ t.rows, decide (k = key x) = decide (key x = k) :=
    fun x _ => decide_eq_decide.mpr eq_comm
  simp [List.filter_congr hsame, find?_eq_some.mpr ⟨h, hk⟩]

/-- Adds a row in place of the one with its key, if there is one. -/
def put (t : Table ρ key) (r : ρ) : Table ρ key :=
  if h : key r ∈ t.keys then
    t.update (fun x => decide (key x = key r)) (fun x => if key x = key r then r else x)
      fun x => by
        by_cases hx : key x = key r
        · rw [if_pos hx, hx]
        · rw [if_neg hx]
  else
    { rows := t.rows ++ [r]
      nodup := by
        rw [List.map_append, List.map_singleton]
        exact t.nodup.append (List.nodup_singleton _) fun k hk hk' =>
          h (List.mem_singleton.mp hk' ▸ hk) }

/-- Assigning to a new key adds it. -/
@[simp] theorem keys_put {t : Table ρ key} {r : ρ} (h : key r ∉ t.keys) :
    (t.put r).keys = t.keys ++ [key r] := by
  rw [put, dif_neg h, keys, keys, List.map_append, List.map_singleton]

@[simp] theorem mem_put {t : Table ρ key} {r x : ρ} :
    x ∈ t.put r ↔ x = r ∨ (x ∈ t ∧ key x ≠ key r) := by
  rw [put]
  split
  · rename_i hmem
    obtain ⟨y, hy, hyr⟩ := mem_keys.mp hmem
    rw [mem_update]
    constructor
    · rintro ⟨z, hz, rfl⟩
      by_cases hzr : key z = key r
      · exact Or.inl (by simp [hzr])
      · exact Or.inr (by simpa [hzr] using hz)
    · rintro (rfl | ⟨hx, hxr⟩)
      · exact ⟨y, hy, by simp [hyr]⟩
      · exact ⟨x, hx, by simp [hxr]⟩
  · rename_i hmem
    rw [mem_def, List.mem_append, List.mem_singleton]
    constructor
    · rintro (hx | rfl)
      · exact Or.inr ⟨hx, fun hk => hmem (hk ▸ key_mem_keys hx)⟩
      · exact Or.inl rfl
    · rintro (rfl | ⟨hx, -⟩)
      · exact Or.inr rfl
      · exact Or.inl hx

@[simp] theorem mem_keys_put {t : Table ρ key} {r : ρ} {k : κ} :
    k ∈ (t.put r).keys ↔ k = key r ∨ k ∈ t.keys := by
  simp only [mem_keys, mem_put]
  constructor
  · rintro ⟨x, rfl | ⟨hx, -⟩, rfl⟩
    · exact Or.inl rfl
    · exact Or.inr ⟨x, hx, rfl⟩
  · rintro (rfl | ⟨x, hx, rfl⟩)
    · exact ⟨r, Or.inl rfl, rfl⟩
    · by_cases hxr : key x = key r
      · exact ⟨r, Or.inl rfl, hxr.symm⟩
      · exact ⟨x, Or.inr ⟨hx, hxr⟩, rfl⟩

/-- What a loop of assignments leaves is what was there, or was assigned. -/
theorem mem_foldl_put {α : Type*} {g : α → ρ} {l : List α} {t : Table ρ key} {x : ρ}
    (h : x ∈ l.foldl (fun t a => t.put (g a)) t) : x ∈ t ∨ ∃ a ∈ l, x = g a := by
  induction l generalizing t with
  | nil => exact Or.inl h
  | cons a l ih =>
    rcases ih h with hput | ⟨b, hb, rfl⟩
    · rcases mem_put.mp hput with rfl | ⟨hx, -⟩
      · exact Or.inr ⟨a, List.mem_cons_self, rfl⟩
      · exact Or.inl hx
    · exact Or.inr ⟨b, List.mem_cons_of_mem a hb, rfl⟩

theorem mem_keys_foldl_put {α : Type*} {g : α → ρ} {l : List α} {t : Table ρ key} {k : κ} :
    k ∈ (l.foldl (fun t a => t.put (g a)) t).keys ↔ k ∈ t.keys ∨ ∃ a ∈ l, key (g a) = k := by
  induction l generalizing t with
  | nil => simp
  | cons a l ih =>
    rw [List.foldl_cons, ih, mem_keys_put, List.exists_mem_cons_iff]
    tauto

/-- Assigning to new keys adds the rows, in their order. -/
theorem rows_foldl_put {l : List ρ} {t : Table ρ key} (h : (t.rows ++ l |>.map key).Nodup) :
    (l.foldl put t).rows = t.rows ++ l := by
  induction l generalizing t with
  | nil => exact (List.append_nil _).symm
  | cons r l ih =>
    have hr : key r ∉ t.keys := by
      rw [List.map_append] at h
      exact fun hmem => (List.nodup_append.mp h).2.2 _ hmem _ List.mem_cons_self rfl
    have hput : (t.put r).rows = t.rows ++ [r] := by rw [put, dif_neg hr]
    have hsplit : (t.put r).rows ++ l = t.rows ++ r :: l := by
      rw [hput, List.append_assoc, List.singleton_append]
    rw [List.foldl_cons, ih (by rw [hsplit]; exact h), hsplit]

/-- Assigned one after the other, the rows of a table make this table. -/
@[simp] theorem foldl_put_rows (t : Table ρ key) : t.rows.foldl put (∅ : Table ρ key) = t := by
  ext1
  exact (rows_foldl_put (t := (∅ : Table ρ key)) t.nodup).trans (List.nil_append _)

/-- Deleting a key takes just it from the keys. -/
theorem keys_perm_delete {t : Table ρ key} {k : κ} (h : k ∈ t.keys) :
    t.keys.Perm (k :: (t.delete fun r => decide (key r = k)).keys) := by
  obtain ⟨r, hr, rfl⟩ := mem_keys.mp h
  have hone : (t.rows.filter fun x => decide (key x = key r)) = [r] := by
    simp [find?_eq_some.mpr ⟨hr, rfl⟩]
  have hsplit := (List.filter_append_perm (fun x => decide (key x = key r)) t.rows).map key
  rw [hone] at hsplit
  exact hsplit.symm

end Insert

end Table

/-! ### The rows a `LIMIT` returns -/

/-- `res` is a possible result of `SELECT … LIMIT amount` where the query
without the limit has the rows `all`: which rows it takes, and in which order,
is unspecified, how many is not. -/
def IsLimit {ρ : Type*} (amount : ℕ) (all res : List ρ) : Prop :=
  List.Subperm res all ∧ res.length = min amount all.length

instance {ρ : Type*} [DecidableEq ρ] (amount : ℕ) (all res : List ρ) :
    Decidable (IsLimit amount all res) := inferInstanceAs (Decidable (_ ∧ _))

theorem IsLimit.mem {ρ : Type*} {amount : ℕ} {all res : List ρ} (h : IsLimit amount all res)
    {r : ρ} (hr : r ∈ res) : r ∈ all := h.1.subset hr

theorem IsLimit.nodup_map {ρ κ : Type*} {key : ρ → κ} {amount : ℕ} {all res : List ρ}
    (h : IsLimit amount all res) (hall : (all.map key).Nodup) : (res.map key).Nodup := by
  obtain ⟨l, hperm, hsub⟩ := h.1
  exact (hperm.map key).nodup_iff.mp (hall.sublist (hsub.map key))

/-- A limit picks something. -/
theorem isLimit_take {ρ : Type*} (amount : ℕ) (all : List ρ) :
    IsLimit amount all (all.take amount) :=
  ⟨(List.take_sublist amount all).subperm, List.length_take⟩

end Lib
