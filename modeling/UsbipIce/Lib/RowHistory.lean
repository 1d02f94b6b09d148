import UsbipIce.Lib.ReadCommitted

/-!
# The history of a row

At READ COMMITTED statements of different transactions come in between each other,
but a row that is written is held until its transaction ends. So the writes of one
row are not interleaved: those of one transaction come together, and those of a
transaction that has committed come before those of one that has not. What a row
is now is therefore what its committed writes, in their order, make of what it was
at the beginning, and each of them was sound on what the ones before it had left
(`Lib.ReadCommitted.Row.replays_of_reaches`): as far as a single row goes, the
transactions are serial.

The other way round, a transaction that has committed has done all that its
statements were about to do, save what it skipped
(`Lib.ReadCommitted.Plan.carriedOut_of_reaches`).
-/

namespace Lib.ReadCommitted

variable {δ σ ω κ τ ι : Type*}

/-! ### What has been written -/

def Stage.isCommitted : Stage σ ω → Bool
  | .committed => true
  | .start | .writing .. | .waiting .. | .aborted => false

@[simp] theorem Stage.isCommitted_iff {stage : Stage σ ω} :
    stage.isCommitted = true ↔ stage = .committed := by
  cases stage <;> simp [Stage.isCommitted]

theorem Stage.Open.ne_committed {stage : Stage σ ω} (h : stage.Open) : stage ≠ .committed := by
  rintro rfl
  exact h

namespace Server

variable (s : Server δ σ ω τ)

/-- The transaction has committed. -/
def committed (t : ℕ) : Bool := s.transactions[t]?.any fun tx => tx.stage.isCommitted

/-- The writes that have taken effect, each with its transaction. -/
def log : List (ℕ × ω) := s.effects.map fun e => (e.1, e.2.1)

/-- What a transaction has written, whatever has become of it. -/
def performed (t : ℕ) : List ω := (s.log.filter fun e => e.1 = t).map Prod.snd

@[simp] theorem mem_performed {t : ℕ} {w : ω} : w ∈ s.performed t ↔ (t, w) ∈ s.log := by
  rw [performed, List.mem_map]
  constructor
  · rintro ⟨⟨t', w'⟩, hmem, rfl⟩
    obtain ⟨hlog, ht⟩ := List.mem_filter.mp hmem
    obtain rfl : t' = t := of_decide_eq_true ht
    exact hlog
  · intro hmem
    exact ⟨(t, w), List.mem_filter.mpr ⟨hmem, decide_eq_true rfl⟩, rfl⟩

theorem committed_iff {t : ℕ} :
    s.committed t = true ↔ ∃ tx, s.transactions[t]? = some tx ∧ tx.stage = .committed := by
  rw [committed, Option.any_eq_true]
  simp only [Stage.isCommitted_iff]

end Server

/-- The writes of a row. -/
def Schema.ofKey (M : Schema δ σ ω κ τ ι) [DecidableEq κ] (k : κ) (writes : List ω) : List ω :=
  writes.filter fun w => M.key w = k

/-- **The history of a row**: its committed writes, each with its transaction. -/
def Schema.history (M : Schema δ σ ω κ τ ι) [DecidableEq κ] (s : Server δ σ ω τ) (k : κ) :
    List (ℕ × ω) :=
  (s.log.filter fun e => M.key e.2 = k).filter fun e => s.committed e.1

/-- Where what satisfies `q` comes last, taking it along with the others is
appending it. -/
theorem filter_or_of_pairwise {α : Type*} {p q : α → Bool} {l : List α}
    (hlast : l.Pairwise fun a b => q a = true → q b = true)
    (hdisjoint : ∀ a, q a = true → p a = false) :
    (l.filter fun a => p a || q a) = l.filter p ++ l.filter q := by
  induction l with
  | nil => rfl
  | cons a l ih =>
    obtain ⟨hfirst, hlast⟩ := List.pairwise_cons.mp hlast
    rw [List.filter_cons, List.filter_cons, List.filter_cons, ih hlast]
    by_cases hq : q a = true
    · -- so does all that follows, and nothing of it satisfies `p`
      have hnil : l.filter p = [] := by
        refine List.filter_eq_nil_iff.mpr fun b hb => ?_
        rw [hdisjoint b (hfirst b hb hq)]
        exact Bool.false_ne_true
      rw [hq, hdisjoint a hq, hnil]
      rfl
    · rw [Bool.eq_false_iff.mpr hq, Bool.or_false]
      cases p a <;> rfl

/-- The writes of one transaction, of those that satisfy `p`. -/
theorem filter_filter_eq_map (l : List (ℕ × ω)) (t : ℕ) (p : ω → Bool) :
    ((l.filter fun e => p e.2).filter fun e => e.1 = t) =
      (((l.filter fun e => e.1 = t).map Prod.snd).filter p).map fun w => (t, w) := by
  induction l with
  | nil => rfl
  | cons e l ih =>
    obtain ⟨j, w⟩ := e
    by_cases ht : j = t
    · subst ht
      by_cases hp : p w = true <;> simp [hp, ih]
    · by_cases hp : p w = true <;> simp [ht, hp, ih]

/-! ### What a step writes -/

section Step

variable {M : Schema δ σ ω κ τ ι} [DecidableEq κ] {s s' : Server δ σ ω τ} {t : ℕ}
  {tx tx' : Transaction σ ω τ}

variable (M) in
/-- What a step of transaction `t` does to what is written and committed. -/
inductive Writes (s : Server δ σ ω τ) (t : ℕ) (tx tx' : Transaction σ ω τ) :
    Server δ σ ω τ → Prop
  /-- Nothing. -/
  | keeps {u : Server δ σ ω τ} (hdatabase : u.database = s.database) (hlog : u.log = s.log)
      (hwrites : tx'.writes = tx.writes) (hstage : tx'.stage ≠ .committed) : Writes s t tx tx' u
  | drops {u : Server δ σ ω τ} (hdatabase : u.database = s.database) (hlog : u.log = s.log)
      (hwrites : tx'.writes = []) (hstage : tx'.stage = .aborted) : Writes s t tx tx' u
  | passes {u : Server δ σ ω τ} {row : ω} (hdatabase : u.database = s.database)
      (hlog : u.log = s.log ++ [(t, row)]) (hwrites : tx'.writes = tx.writes ++ [row])
      (hstage : tx'.stage ≠ .committed) (hfree : M.holder s t (M.key row) = none)
      (hcheck : M.check (M.view s.database tx) row = .passes) : Writes s t tx tx' u
  | commits {u : Server δ σ ω τ} (hdatabase : u.database = M.view s.database tx)
      (hlog : u.log = s.log) (hwrites : tx'.writes = []) (hstage : tx'.stage = .committed)
      (hopen : tx.stage.Open) : Writes s t tx tx' u

theorem Schema.Rule.exists_writes {i : ServerInput ι} (h : M.Rule s t tx i s') :
    ∃ tx', s'.transactions = s.transactions.set t tx' ∧ Writes M s t tx tx' s' := by
  cases h with
  | raises hstage hfirst => exact ⟨_, rfl, .keeps rfl rfl rfl nofun⟩
  | first hstage hfirst => exact ⟨_, rfl, .keeps rfl rfl rfl nofun⟩
  | statement hstage => exact ⟨_, rfl, .keeps rfl rfl rfl nofun⟩
  | waits hstage hk hheld => exact ⟨_, rfl, .keeps rfl rfl rfl nofun⟩
  | fails htakes hfree hcheck => exact ⟨_, rfl, .drops rfl rfl rfl rfl⟩
  | skips htakes hfree hcheck => exact ⟨_, rfl, .keeps rfl rfl rfl nofun⟩
  | passes htakes hfree hcheck =>
    exact ⟨_, rfl, .passes rfl (by simp [Server.log]) rfl nofun hfree hcheck⟩
  | commits hstage =>
    refine ⟨_, rfl, .commits rfl rfl rfl rfl ?_⟩
    rw [hstage]
    trivial
  | killed hstage hdeadlock => exact ⟨_, rfl, .drops rfl rfl rfl rfl⟩

/-- Only the transaction that goes on writes, and not when it commits. -/
theorem Writes.performed_eq (h : Writes M s t tx tx' s') {j : ℕ}
    (hj : j ≠ t ∨ tx'.stage = .committed) : s'.performed j = s.performed j := by
  cases h with
  | keeps hdatabase hlog hwrites hstage => rw [Server.performed, hlog, ← Server.performed]
  | drops hdatabase hlog hwrites hstage => rw [Server.performed, hlog, ← Server.performed]
  | passes hdatabase hlog hwrites hstage hfree hcheck =>
    have hne : j ≠ t := hj.resolve_right hstage
    rw [Server.performed, hlog, List.filter_append, List.map_append, ← Server.performed,
      List.filter_cons_of_neg (by simpa using hne.symm), List.filter_nil, List.map_nil,
      List.append_nil]
  | commits hdatabase hlog hwrites hstage hopen =>
    rw [Server.performed, hlog, ← Server.performed]

/-! ### The writes of a row come transaction by transaction -/

variable (M) in
/-- **The invariant**: a transaction that has not ended has written what it holds,
and nobody else has written these rows after it. -/
structure Recorded (s : Server δ σ ω τ) : Prop where
  sound : M.Sound s
  own : ∀ (t : ℕ) (tx : Transaction σ ω τ), s.transactions[t]? = some tx →
    tx.stage ≠ .committed → tx.stage ≠ .aborted → s.performed t = tx.writes
  held : s.log.Pairwise fun e e' => M.key e.2 = M.key e'.2 →
    ∀ tx, s.transactions[e.1]? = some tx → tx.stage.Open → e'.1 = e.1

omit [DecidableEq κ] in
theorem recorded_start (database : δ) (data : List τ) :
    Recorded M (Server.start (σ := σ) (ω := ω) database data) := by
  refine ⟨Schema.sound_start database data, fun t tx htx _ _ => ?_, List.Pairwise.nil⟩
  obtain ⟨d, -, rfl⟩ := Schema.getElem?_start htx
  rfl

theorem Stage.Open.not_ended {stage : Stage σ ω} (h : stage.Open) :
    stage ≠ .committed ∧ stage ≠ .aborted := by
  constructor <;>
  · rintro rfl
    exact h

theorem recorded_step {i : ServerInput ι} (hs : Recorded M s) (h : M.step s i = some s') :
    Recorded M s' := by
  obtain ⟨tx, htx, hrule⟩ := Schema.rule_of_step h
  obtain ⟨hcommitted, haborted, -⟩ := hrule.moves
  obtain ⟨tx', hset, hwrites⟩ := hrule.exists_writes
  have hown := hs.own _ tx htx hcommitted haborted
  have hget := fun j => getElem?_set_of_some htx tx' j
  rw [← hset] at hget
  -- before the step, too, a transaction that has written something is open
  have hold : ∀ e ∈ s.log, ∀ tx₂, s'.transactions[e.1]? = some tx₂ → tx₂.stage.Open →
      ∃ tx₁, s.transactions[e.1]? = some tx₁ ∧ tx₁.stage.Open := by
    rintro ⟨j, w⟩ he tx₂ hj hopen
    rw [hget] at hj
    split at hj
    · rename_i heq
      refine ⟨tx, heq ▸ htx, by_contra fun hno => ?_⟩
      obtain rfl : j = i.transaction := heq
      have hmem := s.mem_performed.mpr he
      rw [hown, hs.sound.idle _ _ htx hno] at hmem
      cases hmem
    · exact ⟨tx₂, hj, hopen⟩
  have hheld : s.log.Pairwise fun e e' => M.key e.2 = M.key e'.2 →
      ∀ tx, s'.transactions[e.1]? = some tx → tx.stage.Open → e'.1 = e.1 := by
    refine hs.held.imp_of_mem fun {e e'} he _ hpair hkey tx₂ hj hopen => ?_
    obtain ⟨tx₁, hj₁, hopen₁⟩ := hold e he tx₂ hj hopen
    exact hpair hkey tx₁ hj₁ hopen₁
  cases hwrites with
  | keeps hdatabase hlog hwrites hstage =>
    refine ⟨Schema.sound_step hs.sound h, fun j tx₂ hj hno hno' => ?_, by rwa [hlog]⟩
    rw [Server.performed, hlog, ← Server.performed]
    rw [hget] at hj
    split at hj
    · rename_i heq
      obtain rfl := Option.some.inj hj
      rw [heq, hown, hwrites]
    · exact hs.own j tx₂ hj hno hno'
  | drops hdatabase hlog hwrites hstage =>
    refine ⟨Schema.sound_step hs.sound h, fun j tx₂ hj hno hno' => ?_, by rwa [hlog]⟩
    rw [Server.performed, hlog, ← Server.performed]
    rw [hget] at hj
    split at hj
    · obtain rfl := Option.some.inj hj
      exact absurd hstage hno'
    · exact hs.own j tx₂ hj hno hno'
  | passes hdatabase hlog hwrites hstage hfree hcheck =>
    rename_i row
    refine ⟨Schema.sound_step hs.sound h, fun j tx₂ hj hno hno' => ?_, ?_⟩
    · rw [hget] at hj
      rw [Server.performed, hlog, List.filter_append, List.map_append, ← Server.performed]
      split at hj
      · rename_i heq
        obtain rfl := Option.some.inj hj
        rw [heq, hown, hwrites, List.filter_cons_of_pos (by simp)]
        rfl
      · rename_i hne
        rw [List.filter_cons_of_neg (by simp [Ne.symm hne]), List.filter_nil, List.map_nil,
          List.append_nil]
        exact hs.own j tx₂ hj hno hno'
    · rw [hlog, List.pairwise_append]
      refine ⟨hheld, List.pairwise_singleton _ _, ?_⟩
      rintro ⟨j, w⟩ he e' he' hkey tx₂ hj hopen
      rw [List.mem_singleton.mp he'] at hkey ⊢
      by_contra hne
      -- the row would be held by the other one
      have hj₁ := hj
      rw [hget, if_neg (Ne.symm hne)] at hj₁
      obtain ⟨hno, hno'⟩ := hopen.not_ended
      have hmem := s.mem_performed.mpr he
      rw [hs.own j tx₂ hj₁ hno hno'] at hmem
      exact Schema.holder_eq_none.mp hfree j tx₂ hj₁ (Ne.symm hne) w hmem hkey
  | commits hdatabase hlog hwrites hstage hopen =>
    refine ⟨Schema.sound_step hs.sound h, fun j tx₂ hj hno hno' => ?_, by rwa [hlog]⟩
    rw [Server.performed, hlog, ← Server.performed]
    rw [hget] at hj
    split at hj
    · obtain rfl := Option.some.inj hj
      exact absurd hstage hno
    · exact hs.own j tx₂ hj hno hno'

theorem recorded_of_reaches {database : δ} {data : List τ}
    (h : M.machine.Reaches (Server.start database data) s) : Recorded M s :=
  h.invariant (I := Recorded M) (fun _ _ _ hs hstep => recorded_step hs hstep)
    (recorded_start database data)

/-- Only a commit changes who has committed. -/
theorem committed_eq (htx : s.transactions[t]? = some tx) (hstage : tx.stage ≠ .committed)
    (hset : s'.transactions = s.transactions.set t tx') (j : ℕ) :
    s'.committed j = (s.committed j || (decide (j = t) && tx'.stage.isCommitted)) := by
  rw [Server.committed, Server.committed, hset, getElem?_set_of_some htx]
  split
  · rename_i heq
    rw [heq, htx, Option.any_some, Option.any_some, decide_eq_true rfl, Bool.true_and,
      Bool.eq_false_iff.mpr fun h => hstage (Stage.isCommitted_iff.mp h), Bool.false_or]
  · rename_i hne
    rw [decide_eq_false hne, Bool.false_and, Bool.or_false]

theorem committed_eq_false (htx : s.transactions[t]? = some tx) (hstage : tx.stage ≠ .committed) :
    s.committed t = false := by
  rw [Server.committed, htx, Option.any_some]
  exact Bool.eq_false_iff.mpr fun h => hstage (Stage.isCommitted_iff.mp h)

/-- What a transaction writes before it commits is in no history. -/
theorem history_eq_of_not_committed {k : κ} {new : List (ℕ × ω)}
    (htx : s.transactions[t]? = some tx) (hstage : tx.stage ≠ .committed)
    (hset : s'.transactions = s.transactions.set t tx') (hstage' : tx'.stage ≠ .committed)
    (hlog : s'.log = s.log ++ new)
    (hnew : ∀ e ∈ new, e.1 = t) : M.history s' k = M.history s k := by
  have hsame : ∀ j, s'.committed j = s.committed j := by
    intro j
    rw [committed_eq htx hstage hset,
      Bool.eq_false_iff.mpr fun h => hstage' (Stage.isCommitted_iff.mp h), Bool.and_false,
      Bool.or_false]
  have hnil : (new.filter fun e => M.key e.2 = k).filter (fun e => s.committed e.1) = [] := by
    refine List.filter_eq_nil_iff.mpr fun e he => ?_
    rw [hnew e (List.mem_of_mem_filter he), committed_eq_false htx hstage]
    exact Bool.false_ne_true
  rw [Schema.history, hlog, List.filter_congr fun e _ => hsame e.1, List.filter_append,
    List.filter_append, hnil, List.append_nil, Schema.history]

/-- Of the history of a row, what one transaction has written. -/
@[simp] theorem filter_history (s : Server δ σ ω τ) (k : κ) (t : ℕ) :
    ((M.history s k).filter fun e => e.1 = t) =
      if s.committed t = true then (M.ofKey k (s.performed t)).map fun w => (t, w) else [] := by
  rw [Schema.history, List.filter_comm]
  rw [filter_filter_eq_map s.log t fun w => M.key w = k, ← Server.performed, ← Schema.ofKey,
    List.filter_map]
  by_cases hcommitted : s.committed t = true
  · rw [if_pos hcommitted]
    refine congrArg _ (List.filter_eq_self.mpr fun w _ => hcommitted)
  · rw [if_neg hcommitted]
    refine (congrArg _ (List.filter_eq_nil_iff.mpr fun w _ => ?_)).trans List.map_nil
    exact hcommitted

/-- **A transaction that commits appends its writes to the histories.** -/
theorem history_of_commit {k : κ} (hs : Recorded M s) (htx : s.transactions[t]? = some tx)
    (hopen : tx.stage.Open) (hset : s'.transactions = s.transactions.set t tx')
    (hstage : tx'.stage = .committed) (hlog : s'.log = s.log) :
    M.history s' k = M.history s k ++ (M.ofKey k tx.writes).map fun w => (t, w) := by
  obtain ⟨hno, hno'⟩ := hopen.not_ended
  have hown : (s.log.filter fun e => e.1 = t).map Prod.snd = tx.writes := hs.own t tx htx hno hno'
  have hlast : (s.log.filter fun e => M.key e.2 = k).Pairwise fun e e' =>
      decide (e.1 = t) = true → decide (e'.1 = t) = true := by
    refine (hs.held.filter _).imp_of_mem fun {e e'} he he' hpair ht => ?_
    obtain rfl := of_decide_eq_true ht
    have hkey : M.key e.2 = k := of_decide_eq_true (List.mem_filter.mp he).2
    have hkey' : M.key e'.2 = k := of_decide_eq_true (List.mem_filter.mp he').2
    exact decide_eq_true (hpair (hkey.trans hkey'.symm) tx htx hopen)
  have hcongr : M.history s' k = (s.log.filter fun e => M.key e.2 = k).filter fun e =>
      s.committed e.1 || decide (e.1 = t) := by
    rw [Schema.history, hlog]
    refine List.filter_congr fun e _ => ?_
    rw [committed_eq htx hno hset, Stage.isCommitted_iff.mpr hstage, Bool.and_true]
  have hdisjoint : ∀ e : ℕ × ω, decide (e.1 = t) = true → s.committed e.1 = false := by
    intro e ht
    rw [of_decide_eq_true ht]
    exact committed_eq_false htx hno
  rw [hcongr, filter_or_of_pairwise hlast hdisjoint, ← Schema.history, ← hown, Schema.ofKey,
    filter_filter_eq_map s.log t fun w => M.key w = k]

end Step

/-! ### One row -/

/-- A row as a machine of its own: what there is of it in a database, what a write
makes of it, and whether it passes. -/
structure Row (M : Schema δ σ ω κ τ ι) (k : κ) (ν : Type*) where
  read : δ → ν
  act : ν → ω → ν
  judge : ν → ω → Check
  read_apply : ∀ database w, M.key w = k → M.check database w = .passes →
    read (M.apply database w) = act (read database) w
  read_apply_of_ne : ∀ database w, M.key w ≠ k → read (M.apply database w) = read database
  check_eq : ∀ database w, M.key w = k → M.check database w = judge (read database) w

namespace Row

variable {M : Schema δ σ ω κ τ ι} {k : κ} {ν : Type*} (R : Row M k ν)

/-- Each write passes on what the ones before it have left. -/
def Passing : ν → List ω → Prop
  | _, [] => True
  | v, w :: writes => R.judge v w = .passes ∧ Passing (R.act v w) writes

@[simp] theorem passing_append {v : ν} {writes writes' : List ω} :
    R.Passing v (writes ++ writes') ↔
      R.Passing v writes ∧ R.Passing (writes.foldl R.act v) writes' := by
  induction writes generalizing v with
  | nil => exact (and_iff_right trivial).symm
  | cons w writes ih =>
    rw [List.cons_append, Passing, Passing, ih, List.foldl_cons, and_assoc]

variable [DecidableEq κ]

/-- Of what a transaction writes, a row shows what concerns it. -/
theorem read_foldl {database : δ} {writes : List ω}
    (h : R.Passing (R.read database) (M.ofKey k writes)) :
    R.read (writes.foldl M.apply database) =
      (M.ofKey k writes).foldl R.act (R.read database) := by
  induction writes generalizing database with
  | nil => rfl
  | cons w writes ih =>
    rw [Schema.ofKey, List.filter_cons] at h ⊢
    rw [List.foldl_cons]
    by_cases hkey : M.key w = k
    · rw [if_pos (decide_eq_true hkey)] at h ⊢
      have hcheck : M.check database w = .passes := (R.check_eq database w hkey).trans h.1
      have happly := R.read_apply database w hkey hcheck
      rw [List.foldl_cons, ← happly]
      refine ih ?_
      rw [happly]
      exact h.2
    · rw [if_neg (by simpa using hkey)] at h ⊢
      have happly := R.read_apply_of_ne database w hkey
      rw [← happly] at h ⊢
      exact ih h

/-- **The invariant**: the history leads from `v` to what is there, and what an
unfinished transaction has written of the row passes on that. -/
structure Replays (v : ν) (s : Server δ σ ω τ) : Prop where
  passing : R.Passing v ((M.history s k).map Prod.snd)
  read_eq : R.read s.database = ((M.history s k).map Prod.snd).foldl R.act v
  pending : ∀ (t : ℕ) (tx : Transaction σ ω τ), s.transactions[t]? = some tx →
    R.Passing (R.read s.database) (M.ofKey k tx.writes)

variable {R} {s s' : Server δ σ ω τ} {v : ν}

theorem replays_step {i : ServerInput ι} (hrecorded : Recorded M s) (hs : R.Replays v s)
    (h : M.step s i = some s') : R.Replays v s' := by
  obtain ⟨tx, htx, hrule⟩ := Schema.rule_of_step h
  obtain ⟨hno, -⟩ := hrule.moves
  obtain ⟨tx', hset, hwrites⟩ := hrule.exists_writes
  have hget := fun j => getElem?_set_of_some htx tx' j
  rw [← hset] at hget
  -- the others still pass where the row is as it was
  have hothers : R.read s'.database = R.read s.database →
      R.Passing (R.read s.database) (M.ofKey k tx'.writes) →
      ∀ (j : ℕ) (tx₂ : Transaction σ ω τ), s'.transactions[j]? = some tx₂ →
        R.Passing (R.read s'.database) (M.ofKey k tx₂.writes) := by
    intro hread hthis j tx₂ hj
    rw [hread]
    rw [hget] at hj
    split at hj
    · obtain rfl := Option.some.inj hj
      exact hthis
    · exact hs.pending j tx₂ hj
  cases hwrites with
  | keeps hdatabase hlog hwrites hstage =>
    have hhistory := history_eq_of_not_committed (M := M) (k := k) htx hno hset
      hstage (hlog.trans (List.append_nil _).symm) nofun
    refine ⟨by rw [hhistory]; exact hs.passing, by rw [hhistory, hdatabase]; exact hs.read_eq,
      hothers (by rw [hdatabase]) ?_⟩
    rw [hwrites]
    exact hs.pending _ tx htx
  | drops hdatabase hlog hwrites hstage =>
    have hhistory := history_eq_of_not_committed (M := M) (k := k) htx hno hset
      (by rw [hstage]; nofun) (hlog.trans (List.append_nil _).symm) nofun
    refine ⟨by rw [hhistory]; exact hs.passing, by rw [hhistory, hdatabase]; exact hs.read_eq,
      hothers (by rw [hdatabase]) ?_⟩
    rw [hwrites]
    trivial
  | passes hdatabase hlog hwrites hstage hfree hcheck =>
    rename_i row
    have hhistory := history_eq_of_not_committed (M := M) (k := k) htx hno hset hstage hlog
      fun e he => by rw [List.mem_singleton.mp he]
    refine ⟨by rw [hhistory]; exact hs.passing, by rw [hhistory, hdatabase]; exact hs.read_eq,
      hothers (by rw [hdatabase]) ?_⟩
    have hthis := hs.pending _ tx htx
    rw [hwrites, Schema.ofKey, List.filter_append, passing_append, ← Schema.ofKey,
      ← R.read_foldl hthis]
    refine ⟨hthis, ?_⟩
    rw [List.filter_singleton]
    by_cases hkey : M.key row = k
    · rw [decide_eq_true hkey]
      exact ⟨(R.check_eq _ row hkey).symm.trans hcheck, trivial⟩
    · rw [decide_eq_false hkey]
      trivial
  | commits hdatabase hlog hwrites hstage hopen =>
    have hhistory := history_of_commit (M := M) (k := k) hrecorded htx hopen hset hstage hlog
    have hthis := hs.pending _ tx htx
    have hread : R.read s'.database = (M.ofKey k tx.writes).foldl R.act (R.read s.database) := by
      rw [hdatabase, Schema.view, R.read_foldl hthis]
    have hmap : (M.history s' k).map Prod.snd =
        (M.history s k).map Prod.snd ++ M.ofKey k tx.writes := by
      rw [hhistory, List.map_append, List.map_map]
      exact congrArg _ (List.map_id _)
    refine ⟨?_, ?_, ?_⟩
    · rw [hmap, passing_append, ← hs.read_eq]
      exact ⟨hs.passing, hthis⟩
    · rw [hmap, List.foldl_append, ← hs.read_eq]
      exact hread
    · intro j tx₂ hj
      rw [hget] at hj
      split at hj
      · obtain rfl := Option.some.inj hj
        rw [hwrites]
        trivial
      · rename_i hne
        -- two transactions do not both hold the row
        rcases hnil : M.ofKey k tx.writes with _ | ⟨w, writes⟩
        · rw [hread, hnil]
          exact hs.pending j tx₂ hj
        · have hw : w ∈ M.ofKey k tx.writes := hnil ▸ List.mem_cons_self
          obtain ⟨hw, hkey⟩ := List.mem_filter.mp hw
          have hnone : M.ofKey k tx₂.writes = [] := by
            refine List.filter_eq_nil_iff.mpr fun w' hw' hkey' => ?_
            exact hrecorded.sound.exclusive j _ tx₂ tx hj htx hne w' hw' w hw
              ((of_decide_eq_true hkey').trans (of_decide_eq_true hkey).symm)
          rw [hnone]
          trivial

/-- **A single row is written serially.** In every run its committed writes, in
their order, each pass on what the ones before have left, and lead to what there
is of the row. -/
theorem replays_of_reaches {database : δ} {data : List τ}
    (h : M.machine.Reaches (Server.start database data) s) : R.Replays (R.read database) s := by
  refine (h.invariant (I := fun s => Recorded M s ∧ R.Replays (R.read database) s)
    (fun s i s' hs hstep => ⟨recorded_step hs.1 hstep, replays_step hs.1 hs.2 hstep⟩)
    ⟨recorded_start database data, trivial, rfl, fun t tx htx => ?_⟩).2
  obtain ⟨d, -, rfl⟩ := Schema.getElem?_start htx
  trivial

end Row

/-! ### What has been done when a transaction has committed -/

/-- What the writes, the statements and the local data of a transaction tell of
what it does, where a statement writes all that it is said to and nothing of it is
skipped. -/
structure Plan (M : Schema δ σ ω κ τ ι) (β : Type*) where
  ofRow : ω → List β
  ofStatement : σ → List β
  ofData : τ → List β
  rows : ∀ database statement,
    ((M.rows database statement).flatMap ofRow).Perm (ofStatement statement)
  skipped : ∀ database w, M.check database w = .skipped → ofRow w = []
  first : ∀ database data choice data' statements,
    M.first database data choice = some (data', some statements) →
      (statements.flatMap ofStatement).Perm (ofData data')
  answer : ∀ database statement data, ofData (M.answer database statement data) = ofData data

namespace Plan

variable {M : Schema δ σ ω κ τ ι} {β : Type*} (p : Plan M β)

/-- What a transaction has written, with what it is still to write. -/
def work (tx : Transaction σ ω τ) : List β := Schema.work p.ofRow p.ofStatement tx

/-- What there is to say of a transaction: while it is open all is done or to be
done, and when it has committed all is done. -/
structure Fulfils (writes : List ω) (tx : Transaction σ ω τ) : Prop where
  isOpen : tx.stage.Open → (p.work tx).Perm (p.ofData tx.data)
  committed : tx.stage = .committed → (writes.flatMap p.ofRow).Perm (p.ofData tx.data)

variable {p} [DecidableEq κ] {s s' : Server δ σ ω τ} {t : ℕ} {tx : Transaction σ ω τ}

omit [DecidableEq κ] in
theorem work_of_takes {i : ServerInput ι} {row : ω} {rows : List ω} {statements : List σ}
    (h : Takes tx i row rows statements) :
    (p.work tx).Perm (tx.writes.flatMap p.ofRow ++
      (p.ofRow row ++ (rows.flatMap p.ofRow ++ statements.flatMap p.ofStatement))) := by
  rw [work, Schema.work, h.statements_eq, ← List.append_assoc (p.ofRow row)]
  refine List.Perm.append_left _ (List.Perm.append_right _ ?_)
  exact h.rows_perm.flatMap_right p.ofRow

omit [DecidableEq κ] in
theorem fulfils_of_open {writes : List ω} (hstage : tx.stage.Open)
    (hwork : (p.work tx).Perm (p.ofData tx.data)) : p.Fulfils writes tx :=
  ⟨fun _ => hwork, fun hcommitted => absurd hcommitted hstage.ne_committed⟩

omit [DecidableEq κ] in
theorem fulfils_of_aborted {writes : List ω} (hstage : tx.stage = .aborted) :
    p.Fulfils writes tx := by
  constructor
  · intro hopen
    rw [hstage] at hopen
    exact hopen.elim
  · intro hcommitted
    rw [hstage] at hcommitted
    cases hcommitted

theorem fulfils_of_rule {i : ServerInput ι} (hidle : ¬tx.stage.Open → tx.writes = [])
    (hopen : tx.stage.Open → (p.work tx).Perm (p.ofData tx.data)) (h : M.Rule s t tx i s') :
    ∃ tx', s'.transactions = s.transactions.set t tx' ∧ p.Fulfils tx.writes tx' := by
  cases h with
  | raises hstage hfirst => exact ⟨_, rfl, fulfils_of_aborted rfl⟩
  | first hstage hfirst =>
    have hnil : tx.writes = [] := hidle (by rw [hstage]; exact id)
    refine ⟨_, rfl, fulfils_of_open trivial ?_⟩
    rw [work, Schema.work, hnil]
    exact p.first _ _ _ _ _ hfirst
  | statement hstage =>
    rename_i statement statements
    refine ⟨_, rfl, fulfils_of_open trivial ?_⟩
    have hwork := hopen (by rw [hstage]; trivial)
    rw [work, Schema.work, hstage] at hwork
    rw [p.answer]
    refine List.Perm.trans ?_ hwork
    exact ((p.rows _ statement).append_right _).append_left _
  | waits hstage hk hheld =>
    refine ⟨_, rfl, fulfils_of_open trivial ?_⟩
    rw [work, Schema.work, Stage.rows, List.flatMap_cons, List.append_assoc]
    exact (work_of_takes (Takes.write (t := t) hstage hk)).symm.trans
      (hopen (by rw [hstage]; trivial))
  | fails htakes hfree hcheck => exact ⟨_, rfl, fulfils_of_aborted rfl⟩
  | skips htakes hfree hcheck =>
    refine ⟨_, rfl, fulfils_of_open trivial ?_⟩
    have hwork := (work_of_takes htakes).symm.trans (hopen htakes.isOpen)
    rw [p.skipped _ _ hcheck] at hwork
    exact hwork
  | passes htakes hfree hcheck =>
    refine ⟨_, rfl, fulfils_of_open trivial ?_⟩
    refine List.Perm.trans ?_ ((work_of_takes htakes).symm.trans (hopen htakes.isOpen))
    rw [work, Schema.work, List.flatMap_append, List.append_assoc, List.flatMap_singleton]
    exact List.Perm.refl _
  | commits hstage =>
    refine ⟨_, rfl, False.elim, fun _ => ?_⟩
    have hwork := hopen (by rw [hstage]; trivial)
    rw [work, Schema.work, hstage] at hwork
    simpa [Stage.rows, Stage.statements] using hwork
  | killed hstage hdeadlock => exact ⟨_, rfl, fulfils_of_aborted rfl⟩

theorem fulfils_of_reaches {database : δ} {data : List τ}
    (h : M.machine.Reaches (Server.start database data) s) (htx : s.transactions[t]? = some tx) :
    p.Fulfils (s.performed t) tx := by
  suffices hinvariant : Recorded M s ∧ ∀ t tx, s.transactions[t]? = some tx →
      p.Fulfils (s.performed t) tx from hinvariant.2 t tx htx
  refine h.invariant (I := fun s => Recorded M s ∧ ∀ t tx, s.transactions[t]? = some tx →
    p.Fulfils (s.performed t) tx) ?_ ⟨recorded_start database data, fun t tx htx => ?_⟩
  · intro s i s' ⟨hrecorded, hs⟩ hstep
    refine ⟨recorded_step hrecorded hstep, fun j tx₂ hj => ?_⟩
    obtain ⟨tx, htx, hrule⟩ := Schema.rule_of_step hstep
    obtain ⟨hno, hno', -⟩ := hrule.moves
    obtain ⟨tx', hset, hwrites⟩ := hrule.exists_writes
    obtain ⟨tx₁, hset₁, hfulfils⟩ := fulfils_of_rule (hrecorded.sound.idle _ tx htx)
      (hs _ tx htx).isOpen hrule
    obtain rfl := eq_of_set_eq htx (hset.symm.trans hset₁)
    rw [hset, getElem?_set_of_some htx] at hj
    split at hj
    · rename_i heq
      obtain rfl := Option.some.inj hj
      refine ⟨hfulfils.isOpen, fun hstage => ?_⟩
      rw [heq, hwrites.performed_eq (Or.inr hstage), hrecorded.own _ tx htx hno hno']
      exact hfulfils.committed hstage
    · rename_i hne
      rw [hwrites.performed_eq (Or.inl hne)]
      exact hs j tx₂ hj
  · obtain ⟨d, -, rfl⟩ := Schema.getElem?_start htx
    exact ⟨nofun, nofun⟩

/-- **What has committed is carried out.** -/
theorem carriedOut_of_reaches {database : δ} {data : List τ}
    (h : M.machine.Reaches (Server.start database data) s) (htx : s.transactions[t]? = some tx)
    (hstage : tx.stage = .committed) :
    ((s.performed t).flatMap p.ofRow).Perm (p.ofData tx.data) :=
  (fulfils_of_reaches h htx).committed hstage

end Plan

end Lib.ReadCommitted
