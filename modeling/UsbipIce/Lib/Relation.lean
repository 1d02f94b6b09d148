import Mathlib.Data.List.Basic

/-!
# Relations with named columns

What a query is evaluated on: a list of columns, each with the name of its table,
and rows as wide as that list (`Lib.Relation.width`). A query refers to columns
by name; a reference is good where exactly one column answers to it, and is
otherwise an error – unknown or ambiguous – whatever the rows are
(`Lib.Relation.select_eq_none_iff`).

A function that returns a table declares its columns, and a query handed back as
its result has to have as many. So a query goes through exactly when all its
references are good and there are as many as declared
(`Lib.Relation.returnQuery_isSome_iff`), and this is again no matter of the rows:
a query that fails on one content of the tables fails on all.
-/

namespace Lib

/-- The name of a column, with that of its table. -/
structure Column where
  table : String
  name : String
  deriving DecidableEq, Repr

/-- How a query refers to a column. -/
inductive ColumnRef where
  /-- By its name alone. -/
  | bare (name : String)
  /-- By its name and that of its table. -/
  | qualified (table name : String)
  deriving DecidableEq, Repr

/-- Whether a column answers to a reference. -/
def ColumnRef.refersTo : ColumnRef → Column → Bool
  | .bare name, c => decide (c.name = name)
  | .qualified table name, c => decide (c.table = table) && decide (c.name = name)

/-- A relation: columns, and rows as wide. -/
structure Relation (V : Type*) where
  columns : List Column
  rows : List (List V)
  /-- Every row has a value for each column. -/
  width : ∀ row ∈ rows, row.length = columns.length

namespace Relation

variable {V ρ : Type*}

/-! ### Resolving references -/

/-- The position of the column a reference is to, if there is exactly one. -/
def resolve (columns : List Column) (ref : ColumnRef) : Option ℕ :=
  if columns.countP ref.refersTo = 1 then some (columns.findIdx ref.refersTo) else none

/-- The positions of several references. -/
def resolveAll (columns : List Column) : List ColumnRef → Option (List ℕ)
  | [] => some []
  | ref :: refs =>
    (resolve columns ref).bind fun i => (resolveAll columns refs).map fun is => i :: is

theorem lt_length_of_resolve {columns : List Column} {ref : ColumnRef} {i : ℕ}
    (h : resolve columns ref = some i) : i < columns.length := by
  rw [resolve] at h
  split at h
  · rename_i hcount
    obtain rfl := Option.some.inj h
    have hpos : 0 < columns.countP ref.refersTo := by omega
    exact List.findIdx_lt_length_of_exists (List.countP_pos_iff.mp hpos)
  · cases h

@[simp] theorem resolve_eq_none_iff {columns : List Column} {ref : ColumnRef} :
    resolve columns ref = none ↔ columns.countP ref.refersTo ≠ 1 := by
  rw [resolve]
  split <;> simp [*]

/-- Every reference yields a position within the columns. -/
theorem resolveAll_spec {columns : List Column} {refs : List ColumnRef} {is : List ℕ}
    (h : resolveAll columns refs = some is) :
    is.length = refs.length ∧ ∀ i ∈ is, i < columns.length := by
  induction refs generalizing is with
  | nil =>
    obtain rfl := Option.some.inj h
    exact ⟨rfl, by simp⟩
  | cons ref refs ih =>
    obtain ⟨i, hi, hrest⟩ := Option.bind_eq_some_iff.mp h
    obtain ⟨is', his, rfl⟩ := Option.map_eq_some_iff.mp hrest
    obtain ⟨hlength, hlt⟩ := ih his
    refine ⟨by rw [List.length_cons, List.length_cons, hlength], fun j hj => ?_⟩
    obtain rfl | hj := List.mem_cons.mp hj
    · exact lt_length_of_resolve hi
    · exact hlt j hj

/-- **References fail one by one**: all are good unless one of them is not. -/
theorem resolveAll_eq_none_iff {columns : List Column} {refs : List ColumnRef} :
    resolveAll columns refs = none ↔ ∃ ref ∈ refs, columns.countP ref.refersTo ≠ 1 := by
  induction refs with
  | nil => simp [resolveAll]
  | cons ref refs ih =>
    rw [resolveAll, List.exists_mem_cons_iff, ← ih, ← resolve_eq_none_iff]
    cases resolve columns ref with
    | none => simp
    | some i => simp

/-- Columns that no reference is to do not matter. -/
theorem resolveAll_append {columns locals : List Column} {refs : List ColumnRef} {is : List ℕ}
    (hvars : ∀ ref ∈ refs, ∀ c ∈ locals, ref.refersTo c = false)
    (h : resolveAll columns refs = some is) : resolveAll (columns ++ locals) refs = some is := by
  induction refs generalizing is with
  | nil => exact h
  | cons ref refs ih =>
    obtain ⟨i, hi, hrest⟩ := Option.bind_eq_some_iff.mp h
    obtain ⟨is', his, rfl⟩ := Option.map_eq_some_iff.mp hrest
    have hnone : locals.countP ref.refersTo = 0 :=
      List.countP_eq_zero.mpr fun c hc => by simp [hvars ref List.mem_cons_self c hc]
    have hlt := lt_length_of_resolve hi
    have hresolve : resolve (columns ++ locals) ref = some i := by
      rw [resolve] at hi
      split at hi
      · rename_i hcount
        obtain rfl := Option.some.inj hi
        rw [resolve, List.countP_append, hnone, hcount, if_pos rfl, List.findIdx_append,
          if_pos hlt]
      · cases hi
    rw [resolveAll, hresolve, Option.bind_some,
      ih (fun ref' href' => hvars ref' (List.mem_cons_of_mem _ href')) his, Option.map_some]

/-! ### Selecting and returning -/

/-- The values at several positions. -/
def pick {α : Type*} (is : List ℕ) (l : List α) : List α := is.filterMap fun i => l[i]?

theorem length_pick {α : Type*} {is : List ℕ} {l : List α} (h : ∀ i ∈ is, i < l.length) :
    (pick is l).length = is.length := by
  induction is with
  | nil => rfl
  | cons i is ih =>
    have hi := List.getElem?_eq_getElem (h i List.mem_cons_self)
    rw [pick, List.filterMap_cons_some hi, List.length_cons, List.length_cons]
    exact congrArg (· + 1) (ih fun j hj => h j (List.mem_cons_of_mem _ hj))

/-- Reading what was picked. -/
theorem getElem?_pick {α : Type*} {is : List ℕ} {l : List α} (h : ∀ i ∈ is, i < l.length)
    (k : ℕ) : (pick is l)[k]? = (is[k]?).bind fun i => l[i]? := by
  induction is generalizing k with
  | nil => simp [pick]
  | cons i is ih =>
    have hi := List.getElem?_eq_getElem (h i List.mem_cons_self)
    rw [pick, List.filterMap_cons_some hi]
    cases k with
    | zero => simp
    | succ k =>
      rw [List.getElem?_cons_succ, List.getElem?_cons_succ]
      exact ih (fun j hj => h j (List.mem_cons_of_mem _ hj)) k

/-- `SELECT refs`: it fails where a reference is to no column, or to more than
one. -/
def select (R : Relation V) (refs : List ColumnRef) : Option (Relation V) :=
  match h : resolveAll R.columns refs with
  | none => none
  | some is => some
    { columns := pick is R.columns
      rows := R.rows.map (pick is)
      width := by
        intro row hrow
        obtain ⟨row', hrow', rfl⟩ := List.mem_map.mp hrow
        have hlt := (resolveAll_spec h).2
        rw [length_pick hlt, length_pick fun i hi => (R.width row' hrow').symm ▸ hlt i hi] }

/-- **When a selection fails**: never because of the rows. -/
theorem select_eq_none_iff {R : Relation V} {refs : List ColumnRef} :
    R.select refs = none ↔ ∃ ref ∈ refs, R.columns.countP ref.refersTo ≠ 1 := by
  rw [← resolveAll_eq_none_iff, select]
  split <;> simp [*]

theorem select_eq_some {R S : Relation V} {refs : List ColumnRef} (h : R.select refs = some S) :
    ∃ is, resolveAll R.columns refs = some is ∧ S.columns.length = refs.length ∧
      S.rows = R.rows.map (pick is) := by
  rw [select] at h
  split at h
  · cases h
  · rename_i is his
    obtain rfl := Option.some.inj h
    obtain ⟨hlength, hlt⟩ := resolveAll_spec his
    exact ⟨is, his, (length_pick hlt).trans hlength, rfl⟩

/-- `RETURN QUERY`, in a function that returns a table with the columns
`declared`. -/
def returnAs (R : Relation V) (declared : List String) : Option (List (List V)) :=
  if R.columns.length = declared.length then some R.rows else none

/-- `RETURN QUERY SELECT refs`. -/
def returnQuery (R : Relation V) (declared : List String) (refs : List ColumnRef) :
    Option (List (List V)) :=
  (R.select refs).bind fun S => S.returnAs declared

/-- **When a query can be returned**: its references are good, and as many as
there are columns declared. -/
@[simp]
theorem returnQuery_isSome_iff {R : Relation V} {declared : List String} {refs : List ColumnRef} :
    (R.returnQuery declared refs).isSome ↔
      (∀ ref ∈ refs, R.columns.countP ref.refersTo = 1) ∧ refs.length = declared.length := by
  rw [returnQuery]
  cases hselect : R.select refs with
  | none =>
    obtain ⟨ref, href, hne⟩ := select_eq_none_iff.mp hselect
    simp only [Option.bind_none, Option.isSome_none, Bool.false_eq_true, false_iff, not_and]
    intro hall
    exact absurd (hall ref href) hne
  | some S =>
    have hall : ∀ ref ∈ refs, R.columns.countP ref.refersTo = 1 := by
      intro ref href
      by_contra hne
      rw [select_eq_none_iff.mpr ⟨ref, href, hne⟩] at hselect
      cases hselect
    obtain ⟨is, -, hlength, -⟩ := select_eq_some hselect
    rw [Option.bind_some, returnAs, hlength]
    by_cases hdeclared : refs.length = declared.length
    · rw [if_pos hdeclared]
      exact iff_of_true rfl ⟨hall, hdeclared⟩
    · rw [if_neg hdeclared]
      exact iff_of_false (by simp) fun h => hdeclared h.2

/-- **What a returned query returns.** -/
theorem returnQuery_eq_some {R : Relation V} {declared : List String} {refs : List ColumnRef}
    {is : List ℕ} (hrefs : resolveAll R.columns refs = some is)
    (hdeclared : refs.length = declared.length) :
    R.returnQuery declared refs = some (R.rows.map (pick is)) := by
  cases hselect : R.select refs with
  | none =>
    rw [select_eq_none_iff, ← resolveAll_eq_none_iff, hrefs] at hselect
    cases hselect
  | some S =>
    obtain ⟨is', his, hlength, hrows⟩ := select_eq_some hselect
    obtain rfl : is = is' := Option.some.inj (hrefs.symm.trans his)
    rw [returnQuery, hselect, Option.bind_some, returnAs, if_pos (hlength.trans hdeclared), hrows]

/-! ### The scope of a query in a function -/

/-- What a query in a function is evaluated on: the rows of its `FROM`, and the
variables of the function, which are the same in every row. -/
def ofRows (tables : List Column) (locals : List (Column × V)) (rows : List ρ)
    (values : ρ → List V) (h : ∀ r, (values r).length = tables.length) : Relation V where
  columns := tables ++ locals.map Prod.fst
  rows := rows.map fun r => values r ++ locals.map Prod.snd
  width := by
    intro row hrow
    obtain ⟨r, -, rfl⟩ := List.mem_map.mp hrow
    rw [List.length_append, List.length_append, h, List.length_map, List.length_map]

/-- **What a query that refers to no variable returns.** -/
theorem returnQuery_ofRows {tables : List Column} {locals : List (Column × V)} {rows : List ρ}
    {values : ρ → List V} (h : ∀ r, (values r).length = tables.length) {declared : List String}
    {refs : List ColumnRef} {is : List ℕ}
    (hvars : ∀ ref ∈ refs, ∀ v ∈ locals, ref.refersTo v.1 = false)
    (hrefs : resolveAll tables refs = some is) (hdeclared : refs.length = declared.length) :
    (ofRows tables locals rows values h).returnQuery declared refs =
      some (rows.map fun r => pick is (values r)) := by
  have hresolve : resolveAll (tables ++ locals.map Prod.fst) refs = some is := by
    refine resolveAll_append (fun ref href c hc => ?_) hrefs
    obtain ⟨v, hv, rfl⟩ := List.mem_map.mp hc
    exact hvars ref href v hv
  rw [returnQuery_eq_some (R := ofRows tables locals rows values h) hresolve hdeclared, ofRows,
    List.map_map]
  refine congrArg some (List.map_congr_left fun r _ => List.filterMap_congr fun i hi => ?_)
  have hlt := (resolveAll_spec hrefs).2 i hi
  rw [List.getElem?_append_left (by rw [h]; exact hlt)]

end Relation

end Lib
