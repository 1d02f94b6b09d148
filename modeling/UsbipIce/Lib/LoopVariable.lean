import Mathlib.Data.List.Perm.Basic
import Mathlib.Data.Multiset.AddSub
import Mathlib.Data.List.Nodup
import UsbipIce.Lib.Machine

/-!
# Threads that read a loop variable

A loop binds a variable to the elements of a list in turn and starts one thread
at each iteration. The threads are closures over the *variable*, not over its
value: each of them reads it a fixed number of times, while the loop goes on
rebinding it.

* `Lib.loop` is the machine: the loop moves on, or a thread makes its next
  read.
* `Lib.LoopState.Inv` says what any schedule keeps: a thread only ever sees its
  own element or a later one.
* `Lib.own_iff_meets` is the exact condition under which every thread has seen
  its own element, read by read, up to what the reads can distinguish.
* `Lib.eq_of_perm_of_mem_drop` is why a batch that serves every element once
  serves each of them by its own thread: the last thread has no choice, so the
  last but one has none either, and so on down.
* `Lib.perm_iff_strays` is what takes its place where elements repeat: the
  threads that found a foreign element must have found each other's.
-/

namespace Lib

variable {ρ : Type*}

/-! ### The machine -/

/-- A loop over a list with the threads it has started. -/
structure LoopState (ρ : Type*) where
  /-- The elements the variable has not been bound to. -/
  todo : List ρ
  /-- The loop variable. -/
  row : Option ρ
  /-- What each started thread has read, in order. -/
  threads : List (List ρ)

/-- What a schedule chooses. -/
inductive LoopInput where
  /-- The loop binds the variable to the next element and starts its thread. -/
  | next
  /-- Thread `i` reads the variable. -/
  | read (i : ℕ)
  deriving DecidableEq

namespace LoopState

/-- The loop before its first iteration. -/
def start (rows : List ρ) : LoopState ρ := ⟨rows, none, []⟩

/-- One step, where every thread reads `n` times. -/
def step (n : ℕ) (s : LoopState ρ) : LoopInput → Option (LoopState ρ)
  | .next =>
    match s.todo with
    | [] => none
    | r :: todo => some ⟨todo, some r, s.threads ++ [[]]⟩
  | .read i =>
    match s.row, s.threads[i]? with
    | some r, some seen =>
      if seen.length < n then some { s with threads := s.threads.set i (seen ++ [r]) } else none
    | _, _ => none

/-- The loop is over and every thread has made its reads. -/
def Done (n : ℕ) (s : LoopState ρ) : Prop := s.todo = [] ∧ ∀ seen ∈ s.threads, seen.length = n

instance [DecidableEq ρ] (n : ℕ) (s : LoopState ρ) : Decidable (s.Done n) :=
  inferInstanceAs (Decidable (_ ∧ _))

theorem step_next {n : ℕ} {s t : LoopState ρ} (h : s.step n .next = some t) :
    ∃ r todo, s.todo = r :: todo ∧ t = ⟨todo, some r, s.threads ++ [[]]⟩ := by
  rw [step] at h
  split at h
  · cases h
  · rename_i r todo htodo
    exact ⟨r, todo, htodo, (Option.some.inj h).symm⟩

theorem step_read {n i : ℕ} {s t : LoopState ρ} (h : s.step n (.read i) = some t) :
    ∃ r seen, s.row = some r ∧ s.threads[i]? = some seen ∧ seen.length < n ∧
      t = { s with threads := s.threads.set i (seen ++ [r]) } := by
  rw [step] at h
  split at h
  · rename_i r seen hrow hseen
    split at h
    · exact ⟨r, seen, hrow, hseen, ‹_›, (Option.some.inj h).symm⟩
    · cases h
  · cases h

/-! ### What any schedule keeps -/

/-- **The invariant of the loop over `rows`**: the threads started are those of
the elements bound, the variable holds the last of these, and a thread has read
only its own element or later ones. -/
structure Inv (rows : List ρ) (s : LoopState ρ) : Prop where
  todo : s.todo = rows.drop s.threads.length
  length : s.threads.length ≤ rows.length
  row : s.row = if s.threads.length = 0 then none else rows[s.threads.length - 1]?
  seen : ∀ i seen, s.threads[i]? = some seen → ∀ r ∈ seen, r ∈ rows.drop i

theorem inv_start (rows : List ρ) : Inv rows (start rows) where
  todo := rfl
  length := Nat.zero_le _
  row := rfl
  seen := by
    intro i seen h
    simp [start] at h

/-- The variable, read by a started thread, holds that thread's element or a
later one. -/
theorem Inv.row_mem {rows : List ρ} {s : LoopState ρ} (h : Inv rows s) {i : ℕ} {seen : List ρ}
    (hi : s.threads[i]? = some seen) {r : ρ} (hr : s.row = some r) : r ∈ rows.drop i := by
  have hlt : i < s.threads.length := (List.getElem?_eq_some_iff.mp hi).1
  rw [h.row, if_neg (by omega)] at hr
  refine List.mem_of_getElem? (i := s.threads.length - 1 - i) ?_
  rw [List.getElem?_drop, ← hr]
  congr 1
  omega

theorem inv_step {n : ℕ} {rows : List ρ} {s t : LoopState ρ} {i : LoopInput} (h : Inv rows s)
    (hstep : s.step n i = some t) : Inv rows t := by
  cases i with
  | next =>
    obtain ⟨r, todo, htodo, rfl⟩ := step_next hstep
    have hdrop : rows.drop s.threads.length = r :: todo := h.todo ▸ htodo
    have hlt : s.threads.length < rows.length := by
      by_contra hge
      rw [List.drop_eq_nil_of_le (by omega)] at hdrop
      cases hdrop
    rw [List.drop_eq_getElem_cons hlt] at hdrop
    obtain ⟨hr, htl⟩ := List.cons.inj hdrop
    refine ⟨?_, ?_, ?_, fun j seen hj => ?_⟩
    · simp [← htl]
    · simpa using Nat.succ_le_of_lt hlt
    · simp [← hr, List.getElem?_eq_getElem hlt]
    · rcases Nat.lt_or_ge j s.threads.length with hlt' | hge
      · rw [List.getElem?_append_left hlt'] at hj
        exact h.seen j seen hj
      · rw [List.getElem?_append_right hge, List.getElem?_singleton] at hj
        split at hj
        · rw [← Option.some.inj hj]
          exact fun _ hmem => absurd hmem List.not_mem_nil
        · cases hj
  | read i =>
    obtain ⟨r, seen, hrow, hseen, -, rfl⟩ := step_read hstep
    refine ⟨by simpa using h.todo, by simpa using h.length, by simpa using h.row,
      fun j seen' hj => ?_⟩
    rw [List.getElem?_set] at hj
    split at hj
    · rename_i hij
      subst hij
      split at hj
      · obtain rfl := Option.some.inj hj
        intro x hx
        rcases List.mem_append.mp hx with hx | hx
        · exact h.seen i seen hseen x hx
        · rw [List.mem_singleton.mp hx]
          exact h.row_mem hseen hrow
      · cases hj
    · exact h.seen j seen' hj

end LoopState

/-- The loop as a machine, every thread reading `n` times. -/
def loop (ρ : Type*) (n : ℕ) : Machine (LoopState ρ) LoopInput := ⟨LoopState.step n⟩

open LoopState

theorem inv_loop {n : ℕ} {rows : List ρ} {t : LoopState ρ} {is : List LoopInput}
    (h : (loop ρ n).run (start rows) is = some t) : Inv rows t :=
  Machine.invariant (I := Inv rows) (fun _ _ _ hs hstep => inv_step hs hstep) (inv_start rows) h

/-- When the loop is over, there is one thread per element. -/
theorem LoopState.Inv.length_eq {n : ℕ} {rows : List ρ} {t : LoopState ρ} (h : Inv rows t)
    (hdone : t.Done n) : t.threads.length = rows.length := by
  have hdrop : rows.drop t.threads.length = [] := h.todo ▸ hdone.1
  have hle := List.drop_eq_nil_iff.mp hdrop
  have hge := h.length
  omega

/-! ### The exact condition

`agree j r r'` says that the `j`-th read of a thread does not tell `r` from
`r'`: it looks at a part of the element that the two have in common. -/

section Own

variable (agree : ℕ → ρ → ρ → Prop)

/-- The step does not read a foreign element: a thread that reads finds in the
variable an element its read does not tell from its own. -/
def ReadsOwn (rows : List ρ) (s : LoopState ρ) : LoopInput → Prop
  | .next => True
  | .read i => ∀ r own seen, s.row = some r → rows[i]? = some own → s.threads[i]? = some seen →
      agree seen.length r own

/-- Every thread has seen, at each of its reads, its own element. -/
def SeenOwn (rows : List ρ) (s : LoopState ρ) : Prop :=
  ∀ (i : ℕ) (own : ρ) (seen : List ρ), rows[i]? = some own → s.threads[i]? = some seen →
    ∀ (j : ℕ) (r : ρ), seen[j]? = some r → agree j r own

variable {agree}

/-- A thread that has seen only its own element keeps doing so exactly when its
next read is of its own. -/
theorem seenOwn_step {n : ℕ} {rows : List ρ} {s t : LoopState ρ} {i : LoopInput}
    (hs : SeenOwn agree rows s) (hstep : s.step n i = some t) :
    SeenOwn agree rows t ↔ ReadsOwn agree rows s i := by
  cases i with
  | next =>
    obtain ⟨r, todo, -, rfl⟩ := step_next hstep
    refine iff_of_true (fun i own seen hown hseen j x hx => ?_) trivial
    rcases Nat.lt_or_ge i s.threads.length with hlt | hge
    · rw [List.getElem?_append_left hlt] at hseen
      exact hs i own seen hown hseen j x hx
    · rw [List.getElem?_append_right hge, List.getElem?_singleton] at hseen
      split at hseen
      · rw [← Option.some.inj hseen] at hx
        simp at hx
      · cases hseen
  | read i =>
    obtain ⟨r, seen, hrow, hseen, -, rfl⟩ := step_read hstep
    have hlt : i < s.threads.length := (List.getElem?_eq_some_iff.mp hseen).1
    have hset : (s.threads.set i (seen ++ [r]))[i]? = some (seen ++ [r]) :=
      List.getElem?_set_self hlt
    constructor
    · intro h r' own seen' hrow' hown hseen'
      obtain rfl : r = r' := Option.some.inj (hrow.symm.trans hrow')
      obtain rfl : seen = seen' := Option.some.inj (hseen.symm.trans hseen')
      exact h i own (seen ++ [r]) hown hset seen.length r (by simp)
    · intro h k own seen' hown hseen' j x hx
      by_cases hik : i = k
      · subst hik
        obtain rfl : seen ++ [r] = seen' := Option.some.inj (hset.symm.trans hseen')
        rcases Nat.lt_or_ge j seen.length with hj | hj
        · rw [List.getElem?_append_left hj] at hx
          exact hs i own seen hown hseen j x hx
        · rw [List.getElem?_append_right hj, List.getElem?_singleton] at hx
          split at hx
          · obtain rfl := Option.some.inj hx
            obtain rfl : j = seen.length := by omega
            exact h r own seen hrow hown hseen
          · cases hx
      · rw [List.getElem?_set_ne hik] at hseen'
        exact hs k own seen' hown hseen' j x hx

/-- What a thread has seen, it has still seen later: a later state in which
every thread has seen its own element had only such states before it. -/
theorem SeenOwn.of_step {n : ℕ} {rows : List ρ} {s t : LoopState ρ} {i : LoopInput}
    (ht : SeenOwn agree rows t) (hstep : s.step n i = some t) : SeenOwn agree rows s := by
  cases i with
  | next =>
    obtain ⟨r, todo, -, rfl⟩ := step_next hstep
    intro i own seen hown hseen
    have hlt : i < s.threads.length := (List.getElem?_eq_some_iff.mp hseen).1
    exact ht i own seen hown (by rw [List.getElem?_append_left hlt, hseen])
  | read i =>
    obtain ⟨r, seen, -, hseen, -, rfl⟩ := step_read hstep
    intro k own seen' hown hseen' j x hx
    by_cases hik : i = k
    · subst hik
      obtain rfl : seen = seen' := Option.some.inj (hseen.symm.trans hseen')
      have hlt : i < s.threads.length := (List.getElem?_eq_some_iff.mp hseen).1
      have hj : j < seen.length := (List.getElem?_eq_some_iff.mp hx).1
      exact ht i own (seen ++ [r]) hown (List.getElem?_set_self hlt) j x
        (by rw [List.getElem?_append_left hj, hx])
    · exact ht k own seen' hown (by rw [List.getElem?_set_ne hik, hseen']) j x hx

/-- **Threads see their own elements exactly when no read of the schedule finds
a foreign one.** -/
theorem own_iff_meets {n : ℕ} {rows : List ρ} {t : LoopState ρ} {is : List LoopInput}
    (h : (loop ρ n).run (start rows) is = some t) :
    SeenOwn agree rows t ↔ (loop ρ n).Meets (ReadsOwn agree rows) (start rows) is := by
  have hstart : SeenOwn agree rows (start rows) := by
    intro i own seen _ hseen
    simp [start] at hseen
  constructor
  · intro ht
    suffices hall : ∀ (s : LoopState ρ) (js : List LoopInput), (loop ρ n).run s js = some t →
        SeenOwn agree rows s ∧ (loop ρ n).Meets (ReadsOwn agree rows) s js from
      (hall _ _ h).2
    intro s js
    induction js generalizing s with
    | nil =>
      intro hrun
      obtain rfl : s = t := Option.some.inj hrun
      exact ⟨ht, trivial⟩
    | cons i js ih =>
      intro hrun
      obtain ⟨u, hu, hrest⟩ := Machine.run_cons_eq_some.mp hrun
      obtain ⟨hown, hmeets⟩ := ih u hrest
      have hs : SeenOwn agree rows s := hown.of_step hu
      refine ⟨hs, (seenOwn_step hs hu).mp hown, fun v hv => ?_⟩
      obtain rfl : u = v := Option.some.inj (hu.symm.trans hv)
      exact hmeets
  · intro hmeets
    exact Machine.invariant_of_meets (I := SeenOwn agree rows)
      (fun s i u hs hi hu => (seenOwn_step hs hu).mpr hi) hstart hmeets h

end Own

/-! ### Serving every element once -/

/-- **A batch served once each is served in place**: when the `i`-th answer is
the key of the `i`-th element or of a later one, and the answers are the keys
up to order, the `i`-th answer is the `i`-th key. -/
theorem eq_of_perm_of_mem_drop {κ : Type*} : ∀ {keys answers : List κ}, keys.Nodup →
    answers.Perm keys → (∀ i k, answers[i]? = some k → k ∈ keys.drop i) → answers = keys
  | [], answers, _, hp, _ => hp.eq_nil
  | k :: keys, [], _, hp, _ => absurd hp.length_eq (by simp)
  | k :: keys, a :: answers, hnd, hp, hlater => by
    obtain ⟨hk, hnd'⟩ := List.nodup_cons.mp hnd
    have hrest : ∀ i b, answers[i]? = some b → b ∈ keys.drop i := by
      intro i b hb
      simpa using hlater (i + 1) b (by simpa using hb)
    have ha : a = k := by
      rcases List.mem_cons.mp (hp.mem_iff.mpr List.mem_cons_self) with rfl | hmem
      · rfl
      · obtain ⟨i, hi⟩ := List.getElem?_of_mem hmem
        exact absurd (List.mem_of_mem_drop (hrest i k hi)) hk
    subst ha
    rw [eq_of_perm_of_mem_drop hnd' hp.cons_inv hrest]

section Strays

variable [DecidableEq ρ]

/-- The threads that found a foreign element: each with its own, and with what
it found. -/
def strays (own found : List ρ) : List (ρ × ρ) :=
  (own.zip found).filter fun p => p.1 ≠ p.2

/-- What is found, and what is the strays' own, is together what is one's own
and what the strays found. -/
theorem add_strays : ∀ {own found : List ρ}, own.length = found.length →
    (found : Multiset ρ) + (strays own found).map Prod.fst =
      (own : Multiset ρ) + (strays own found).map Prod.snd
  | [], [], _ => rfl
  | o :: own, f :: found, hlen => by
    have ih := add_strays (Nat.succ.inj hlen)
    rw [strays, List.zip_cons_cons]
    by_cases hof : o = f
    · rw [List.filter_cons_of_neg (by simpa using hof), hof, ← Multiset.cons_coe,
        ← Multiset.cons_coe, Multiset.cons_add, Multiset.cons_add]
      exact congrArg _ ih
    · rw [List.filter_cons_of_pos (by simpa using hof), List.map_cons, List.map_cons]
      simp only [← Multiset.cons_coe, Multiset.cons_add, Multiset.add_cons]
      rw [Multiset.cons_swap]
      exact congrArg (fun m => f ::ₘ o ::ₘ m) ih

/-- **Every element is served once exactly when the strays make up for each
other**: what they found is, together, what was their own. -/
theorem perm_iff_strays {own found : List ρ} (hlen : own.length = found.length) :
    found.Perm own ↔
      ((strays own found).map Prod.snd).Perm ((strays own found).map Prod.fst) := by
  have hbalance := add_strays hlen
  rw [← Multiset.coe_eq_coe, ← Multiset.coe_eq_coe]
  constructor
  · intro h
    rw [h] at hbalance
    exact (add_left_cancel hbalance).symm
  · intro h
    rw [h] at hbalance
    exact add_right_cancel hbalance

/-! ### Threads of one read -/

/-- What the threads have found, in their order. -/
def LoopState.found (s : LoopState ρ) : List ρ := s.threads.flatten

omit [DecidableEq ρ] in
/-- When every thread has made its one read, the threads are what they found. -/
theorem LoopState.threads_eq {t : LoopState ρ} (hdone : t.Done 1) :
    t.threads = t.found.map fun r => [r] := by
  have hall : ∀ l : List (List ρ), (∀ seen ∈ l, seen.length = 1) →
      l = l.flatten.map fun r => [r] := by
    intro l hl
    induction l with
    | nil => rfl
    | cons seen l ih =>
      obtain ⟨r, rfl⟩ := List.length_eq_one_iff.mp (hl seen List.mem_cons_self)
      rw [List.flatten_cons, List.singleton_append, List.map_cons,
        ← ih fun x hx => hl x (List.mem_cons_of_mem _ hx)]
  exact hall t.threads hdone.2

omit [DecidableEq ρ] in
theorem LoopState.threads_getElem? {t : LoopState ρ} (hdone : t.Done 1) (i : ℕ) :
    t.threads[i]? = t.found[i]?.map fun r => [r] := by
  rw [LoopState.threads_eq hdone, List.getElem?_map]

omit [DecidableEq ρ] in
theorem length_found {rows : List ρ} {t : LoopState ρ} {is : List LoopInput}
    (h : (loop ρ 1).run (start rows) is = some t) (hdone : t.Done 1) :
    rows.length = t.found.length := by
  rw [← (inv_loop h).length_eq hdone]
  conv_lhs => rw [LoopState.threads_eq hdone, List.length_map]

/-- **The exact condition for threads of one read**: the threads serve every
element once exactly when those that found a foreign one made up for each
other. -/
theorem found_perm_iff {rows : List ρ} {t : LoopState ρ} {is : List LoopInput}
    (h : (loop ρ 1).run (start rows) is = some t) (hdone : t.Done 1) :
    t.found.Perm rows ↔
      ((strays rows t.found).map Prod.snd).Perm ((strays rows t.found).map Prod.fst) :=
  perm_iff_strays (length_found h hdone)

omit [DecidableEq ρ] in
/-- Where every thread has found its own element, together they have found the
elements. -/
theorem found_eq_of_meets {rows : List ρ} {t : LoopState ρ} {is : List LoopInput}
    (h : (loop ρ 1).run (start rows) is = some t) (hdone : t.Done 1)
    (hmeets : (loop ρ 1).Meets (ReadsOwn (fun _ => Eq) rows) (start rows) is) :
    t.found = rows := by
  have hown := (own_iff_meets h).mpr hmeets
  refine List.ext_getElem (length_found h hdone).symm fun i hi hi' => ?_
  refine hown i rows[i] [t.found[i]] (List.getElem?_eq_getElem hi') ?_ 0 _ rfl
  rw [LoopState.threads_getElem? hdone, List.getElem?_eq_getElem hi, Option.map_some]

omit [DecidableEq ρ] in
/-- **Of distinct elements**: every thread found its own, read by read. -/
theorem found_perm_iff_meets {rows : List ρ} (hrows : rows.Nodup) {t : LoopState ρ}
    {is : List LoopInput} (h : (loop ρ 1).run (start rows) is = some t) (hdone : t.Done 1) :
    t.found.Perm rows ↔ (loop ρ 1).Meets (ReadsOwn (fun _ => Eq) rows) (start rows) is := by
  have hinv := inv_loop h
  constructor
  · intro hperm
    have heq : t.found = rows := by
      refine eq_of_perm_of_mem_drop hrows hperm fun i r hr => ?_
      refine hinv.seen i [r] ?_ r List.mem_cons_self
      rw [LoopState.threads_getElem? hdone, hr, Option.map_some]
    rw [← own_iff_meets h]
    intro i own seen hown hseen j r hr
    rw [LoopState.threads_getElem? hdone, heq, hown] at hseen
    obtain rfl := Option.some.inj hseen
    exact (List.mem_singleton.mp (List.mem_of_getElem? hr))
  · intro hmeets
    rw [found_eq_of_meets h hdone hmeets]

end Strays

end Lib
