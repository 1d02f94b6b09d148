import UsbipIce.Lib.Machine
import UsbipIce.Lib.Pool

/-!
# Transactions at READ COMMITTED

A server runs transactions side by side. Each is a list of statements, and a
statement writes rows. A statement sees what is committed when it starts and the
writes of its own transaction; then it takes up its rows one after the other, in
any order. A row written by a transaction that has not finished is *held* by it:
another one that takes it up waits until it is free, and then goes on with the
statement as it was. Transactions that wait for each other in a cycle are killed.

What the tables are, what a statement sees and when a row write fails (a key that
is taken, for instance) are parameters (`Lib.ReadCommitted.Schema`).

The inversion lemma `Lib.ReadCommitted.Schema.rule_of_step` says what a step can
do. From it: no two transactions hold the same row, and only an unfinished one
holds any (`Lib.ReadCommitted.Schema.sound_step`); and where the rows that
statements write are bounded, so are the runs
(`Lib.ReadCommitted.Schema.Budget.length_le`).
-/

namespace Lib.ReadCommitted

/-- What becomes of a row write when its row is free. -/
inductive Check where
  | passes
  /-- There is nothing to write any more. -/
  | skipped
  /-- It raises. -/
  | fails
  deriving DecidableEq, Repr

/-- The databases `δ`, the statements `σ`, the row writes `ω` and their keys `κ`,
the local data `τ` of a transaction, and the choices `ι` that are left to the
server. -/
structure Schema (δ σ ω κ τ ι : Type*) where
  key : ω → κ
  apply : δ → ω → δ
  /-- The first statement: it only reads, and either raises or fixes the
  others. -/
  first : δ → τ → ι → Option (τ × Option (List σ))
  /-- The rows that a statement is going to write. -/
  rows : δ → σ → List ω
  /-- What a statement leaves in the local data. -/
  answer : δ → σ → τ → τ
  check : δ → ω → Check

/-- Where a transaction is. -/
inductive Stage (σ ω : Type*) where
  | start
  /-- In a statement, with these rows to write and these statements to come. -/
  | writing (rows : List ω) (statements : List σ)
  /-- Waiting for a row. -/
  | waiting (row : ω) (rows : List ω) (statements : List σ)
  | committed
  | aborted
  deriving DecidableEq

namespace Stage

variable {σ ω : Type*}

/-- The rows of the statement under way that are not written yet. -/
def rows : Stage σ ω → List ω
  | .writing rows _ => rows
  | .waiting row rows _ => row :: rows
  | .start | .committed | .aborted => []

/-- The statements to come. -/
def statements : Stage σ ω → List σ
  | .writing _ statements | .waiting _ _ statements => statements
  | .start | .committed | .aborted => []

/-- The transaction has begun and not finished. -/
def Open : Stage σ ω → Prop
  | .writing .. | .waiting .. => True
  | .start | .committed | .aborted => False

end Stage

/-- A transaction, with the rows it has written. -/
structure Transaction (σ ω τ : Type*) where
  data : τ
  stage : Stage σ ω
  writes : List ω

/-- The database as committed, and the transactions. -/
structure Server (δ σ ω τ : Type*) where
  database : δ
  transactions : List (Transaction σ ω τ)
  /-- The row writes that have taken effect, each with its transaction and what
  was committed at the moment. -/
  effects : List (ℕ × ω × δ)

/-- Which transaction goes on. -/
inductive ServerInput (ι : Type*) where
  | first (t : ℕ) (choice : ι)
  /-- The next statement starts. -/
  | statement (t : ℕ)
  /-- The statement takes up its row `k`. -/
  | write (t k : ℕ)
  /-- The row waited for is free. -/
  | resume (t : ℕ)
  | commit (t : ℕ)
  /-- The transaction is the victim of a deadlock. -/
  | kill (t : ℕ)

variable {δ σ ω κ τ ι : Type*}

/-- A server on which these transactions are about to start. -/
def Server.start (database : δ) (data : List τ) : Server δ σ ω τ where
  database := database
  transactions := data.map fun d => ⟨d, .start, []⟩
  effects := []

/-- One transaction is replaced. -/
def Server.put (s : Server δ σ ω τ) (t : ℕ) (tx : Transaction σ ω τ) : Server δ σ ω τ :=
  { s with transactions := s.transactions.set t tx }

namespace Schema

variable (M : Schema δ σ ω κ τ ι)

/-- What a transaction sees. -/
def view (database : δ) (tx : Transaction σ ω τ) : δ := tx.writes.foldl M.apply database

section Step

variable [DecidableEq κ]

/-- The transaction, other than `t`, that holds a row. -/
def holder (s : Server δ σ ω τ) (t : ℕ) (k : κ) : Option ℕ :=
  (List.range s.transactions.length).find? fun j =>
    decide (j ≠ t) && (s.transactions[j]?.any fun tx => tx.writes.any fun w => M.key w = k)

/-- The transaction that `t` waits for. -/
def waitsFor (s : Server δ σ ω τ) (t : ℕ) : Option ℕ :=
  s.transactions[t]?.bind fun tx =>
    match tx.stage with
    | .waiting row _ _ => M.holder s t (M.key row)
    | .start | .writing .. | .committed | .aborted => none

/-- Following the waits from `j` leads to `t`, in at most so many steps. -/
def leadsTo (s : Server δ σ ω τ) (t : ℕ) : ℕ → ℕ → Bool
  | 0, _ => false
  | n + 1, j =>
    match M.waitsFor s j with
    | none => false
    | some j' => decide (j' = t) || leadsTo s t n j'

/-- A row that is free is written. -/
def perform (s : Server δ σ ω τ) (t : ℕ) (tx : Transaction σ ω τ) (row : ω) (rows : List ω)
    (statements : List σ) : Server δ σ ω τ :=
  match M.check (M.view s.database tx) row with
  | .fails => s.put t { tx with
      stage := .aborted
      writes := [] }
  | .skipped => s.put t { tx with stage := .writing rows statements }
  | .passes =>
    { s with
      transactions := s.transactions.set t { tx with
        stage := .writing rows statements
        writes := tx.writes ++ [row] }
      effects := s.effects ++ [(t, row, s.database)] }

/-- One step of transaction `t`. -/
def stepTransaction (s : Server δ σ ω τ) (t : ℕ) (tx : Transaction σ ω τ) :
    ServerInput ι → Option (Server δ σ ω τ)
  | .first _ choice =>
    match tx.stage with
    | .start =>
      match M.first (M.view s.database tx) tx.data choice with
      | none => none
      | some (data, none) => some (s.put t { tx with
          data := data
          stage := .aborted })
      | some (data, some statements) => some (s.put t { tx with
          data := data
          stage := .writing [] statements })
    | .writing .. | .waiting .. | .committed | .aborted => none
  | .statement _ =>
    match tx.stage with
    | .writing [] (statement :: statements) => some (s.put t { tx with
        data := M.answer (M.view s.database tx) statement tx.data
        stage := .writing (M.rows (M.view s.database tx) statement) statements })
    | .start | .writing .. | .waiting .. | .committed | .aborted => none
  | .write _ k =>
    match tx.stage with
    | .writing rows statements =>
      match rows[k]? with
      | none => none
      | some row =>
        if (M.holder s t (M.key row)).isSome then
          some (s.put t { tx with stage := .waiting row (rows.eraseIdx k) statements })
        else some (M.perform s t tx row (rows.eraseIdx k) statements)
    | .start | .waiting .. | .committed | .aborted => none
  | .resume _ =>
    match tx.stage with
    | .waiting row rows statements =>
      if (M.holder s t (M.key row)).isSome then none
      else some (M.perform s t tx row rows statements)
    | .start | .writing .. | .committed | .aborted => none
  | .commit _ =>
    match tx.stage with
    | .writing [] [] => some { s with
        database := M.view s.database tx
        transactions := s.transactions.set t { tx with
          stage := .committed
          writes := [] } }
    | .start | .writing .. | .waiting .. | .committed | .aborted => none
  | .kill _ =>
    match tx.stage with
    | .waiting .. =>
      if M.leadsTo s t s.transactions.length t then some (s.put t { tx with
          stage := .aborted
          writes := [] })
      else none
    | .start | .writing .. | .committed | .aborted => none

end Step

end Schema

/-- The transaction that goes on. -/
def ServerInput.transaction : ServerInput ι → ℕ
  | .first t _ | .statement t | .write t _ | .resume t | .commit t | .kill t => t

namespace Schema

variable (M : Schema δ σ ω κ τ ι) [DecidableEq κ]

/-- One step. -/
def step (s : Server δ σ ω τ) (i : ServerInput ι) : Option (Server δ σ ω τ) :=
  s.transactions[i.transaction]?.bind fun tx => M.stepTransaction s i.transaction tx i

/-- The server as a machine. -/
def machine : Machine (Server δ σ ω τ) (ServerInput ι) := ⟨M.step⟩

/-! ### What a step can do -/

end Schema

/-- The step takes up a row, leaving these rows and statements. -/
inductive Takes (tx : Transaction σ ω τ) : ServerInput ι → ω → List ω → List σ → Prop
  | write {t k : ℕ} {row : ω} {rows : List ω} {statements : List σ}
      (hstage : tx.stage = .writing rows statements) (hk : rows[k]? = some row) :
      Takes tx (.write t k) row (rows.eraseIdx k) statements
  | resume {t : ℕ} {row : ω} {rows : List ω} {statements : List σ}
      (hstage : tx.stage = .waiting row rows statements) :
      Takes tx (.resume t) row rows statements

theorem Takes.rows_perm {tx : Transaction σ ω τ} {i : ServerInput ι} {row : ω} {rows : List ω}
    {statements : List σ} (h : Takes tx i row rows statements) :
    tx.stage.rows.Perm (row :: rows) := by
  cases h with
  | write hstage hk =>
    rw [hstage]
    exact perm_cons_eraseIdx hk
  | resume hstage =>
    rw [hstage]
    exact List.Perm.refl _

theorem Takes.statements_eq {tx : Transaction σ ω τ} {i : ServerInput ι} {row : ω} {rows : List ω}
    {statements : List σ} (h : Takes tx i row rows statements) :
    tx.stage.statements = statements := by
  cases h with
  | write hstage hk =>
    rw [hstage]
    rfl
  | resume hstage =>
    rw [hstage]
    rfl

theorem Takes.isOpen {tx : Transaction σ ω τ} {i : ServerInput ι} {row : ω} {rows : List ω}
    {statements : List σ} (h : Takes tx i row rows statements) : tx.stage.Open := by
  cases h with
  | write hstage hk =>
    rw [hstage]
    trivial
  | resume hstage =>
    rw [hstage]
    trivial

namespace Schema

variable (M : Schema δ σ ω κ τ ι)

/-- **The rules**: every way in which a transaction goes on. -/
inductive Rule [DecidableEq κ] (s : Server δ σ ω τ) (t : ℕ) (tx : Transaction σ ω τ) :
    ServerInput ι → Server δ σ ω τ → Prop
  /-- The first statement raises. -/
  | raises {choice : ι} {data : τ} (hstage : tx.stage = .start)
      (hfirst : M.first (M.view s.database tx) tx.data choice = some (data, none)) :
      Rule s t tx (.first t choice) (s.put t { tx with
        data := data
        stage := .aborted })
  | first {choice : ι} {data : τ} {statements : List σ} (hstage : tx.stage = .start)
      (hfirst : M.first (M.view s.database tx) tx.data choice = some (data, some statements)) :
      Rule s t tx (.first t choice) (s.put t { tx with
        data := data
        stage := .writing [] statements })
  | statement {statement : σ} {statements : List σ}
      (hstage : tx.stage = .writing [] (statement :: statements)) :
      Rule s t tx (.statement t) (s.put t { tx with
        data := M.answer (M.view s.database tx) statement tx.data
        stage := .writing (M.rows (M.view s.database tx) statement) statements })
  /-- The row is held. -/
  | waits {k : ℕ} {row : ω} {rows : List ω} {statements : List σ}
      (hstage : tx.stage = .writing rows statements) (hk : rows[k]? = some row)
      (hheld : (M.holder s t (M.key row)).isSome) :
      Rule s t tx (.write t k) (s.put t { tx with
        stage := .waiting row (rows.eraseIdx k) statements })
  /-- The row is free, and the write fails. -/
  | fails {i : ServerInput ι} {row : ω} {rows : List ω} {statements : List σ}
      (htakes : Takes tx i row rows statements) (hfree : M.holder s t (M.key row) = none)
      (hcheck : M.check (M.view s.database tx) row = .fails) :
      Rule s t tx i (s.put t { tx with
        stage := .aborted
        writes := [] })
  | skips {i : ServerInput ι} {row : ω} {rows : List ω} {statements : List σ}
      (htakes : Takes tx i row rows statements) (hfree : M.holder s t (M.key row) = none)
      (hcheck : M.check (M.view s.database tx) row = .skipped) :
      Rule s t tx i (s.put t { tx with stage := .writing rows statements })
  | passes {i : ServerInput ι} {row : ω} {rows : List ω} {statements : List σ}
      (htakes : Takes tx i row rows statements) (hfree : M.holder s t (M.key row) = none)
      (hcheck : M.check (M.view s.database tx) row = .passes) :
      Rule s t tx i { s with
        transactions := s.transactions.set t { tx with
          stage := .writing rows statements
          writes := tx.writes ++ [row] }
        effects := s.effects ++ [(t, row, s.database)] }
  | commits (hstage : tx.stage = .writing [] []) :
      Rule s t tx (.commit t) { s with
        database := M.view s.database tx
        transactions := s.transactions.set t { tx with
          stage := .committed
          writes := [] } }
  | killed {row : ω} {rows : List ω} {statements : List σ}
      (hstage : tx.stage = .waiting row rows statements)
      (hdeadlock : M.leadsTo s t s.transactions.length t = true) :
      Rule s t tx (.kill t) (s.put t { tx with
        stage := .aborted
        writes := [] })

variable {M} [DecidableEq κ] {s s' : Server δ σ ω τ} {t : ℕ} {tx : Transaction σ ω τ}

theorem rule_of_perform {i : ServerInput ι} {row : ω} {rows : List ω} {statements : List σ}
    (htakes : Takes tx i row rows statements) (hfree : M.holder s t (M.key row) = none) :
    M.Rule s t tx i (M.perform s t tx row rows statements) := by
  rw [perform]
  split
  · exact .fails htakes hfree ‹_›
  · exact .skips htakes hfree ‹_›
  · exact .passes htakes hfree ‹_›

/-- **A step is an instance of a rule**, for the transaction that goes on. -/
theorem rule_of_step {i : ServerInput ι} (h : M.step s i = some s') :
    ∃ tx, s.transactions[i.transaction]? = some tx ∧ M.Rule s i.transaction tx i s' := by
  obtain ⟨tx, htx, h⟩ := Option.bind_eq_some_iff.mp h
  refine ⟨tx, htx, ?_⟩
  cases i with
  | first t choice =>
    simp only [stepTransaction] at h
    split at h
    · rename_i hstage
      split at h
      · cases h
      · obtain rfl := Option.some.inj h
        exact .raises hstage ‹_›
      · obtain rfl := Option.some.inj h
        exact .first hstage ‹_›
    all_goals cases h
  | statement t =>
    simp only [stepTransaction] at h
    split at h
    · obtain rfl := Option.some.inj h
      exact .statement ‹_›
    all_goals cases h
  | write t k =>
    simp only [stepTransaction] at h
    split at h
    · rename_i rows statements hstage
      split at h
      · cases h
      · rename_i row hk
        split at h
        · obtain rfl := Option.some.inj h
          exact .waits hstage hk ‹_›
        · rename_i hfree
          obtain rfl := Option.some.inj h
          exact rule_of_perform (.write hstage hk) (Option.not_isSome_iff_eq_none.mp hfree)
    all_goals cases h
  | resume t =>
    simp only [stepTransaction] at h
    split at h
    · rename_i row rows statements hstage
      split at h
      · cases h
      · rename_i hfree
        obtain rfl := Option.some.inj h
        exact rule_of_perform (.resume hstage) (Option.not_isSome_iff_eq_none.mp hfree)
    all_goals cases h
  | commit t =>
    simp only [stepTransaction] at h
    split at h
    · obtain rfl := Option.some.inj h
      exact .commits ‹_›
    all_goals cases h
  | kill t =>
    simp only [stepTransaction] at h
    split at h
    · rename_i row rows statements hstage
      split at h
      · obtain rfl := Option.some.inj h
        exact .killed hstage ‹_›
      · cases h
    all_goals cases h

/-! ### Rows are held by one transaction -/

/-- A row is free when no other transaction has written it. -/
theorem holder_eq_none {k : κ} :
    M.holder s t k = none ↔
      ∀ j tx, s.transactions[j]? = some tx → j ≠ t → ∀ w ∈ tx.writes, M.key w ≠ k := by
  rw [holder, List.find?_eq_none]
  constructor
  · intro h j tx hj hne w hw hk
    have hlt : j < s.transactions.length := (List.getElem?_eq_some_iff.mp hj).1
    refine h j (List.mem_range.mpr hlt) ?_
    rw [hj, Option.any_some, Bool.and_eq_true, decide_eq_true_eq, List.any_eq_true]
    exact ⟨hne, w, hw, decide_eq_true hk⟩
  · intro h j hj hheld
    obtain ⟨hne, hany⟩ := (Bool.and_eq_true _ _).mp hheld
    cases htx : s.transactions[j]? with
    | none =>
      rw [htx] at hany
      cases hany
    | some tx =>
      rw [htx] at hany
      obtain ⟨w, hw, hk⟩ := List.any_eq_true.mp hany
      exact h j tx htx (of_decide_eq_true hne) w hw (of_decide_eq_true hk)

variable (M) in
/-- Only an open transaction has written rows, and no row is written by two. -/
structure Sound (s : Server δ σ ω τ) : Prop where
  idle : ∀ (t : ℕ) (tx : Transaction σ ω τ), s.transactions[t]? = some tx → ¬tx.stage.Open →
    tx.writes = []
  exclusive : ∀ (i j : ℕ) (tx tx' : Transaction σ ω τ), s.transactions[i]? = some tx →
    s.transactions[j]? = some tx' → i ≠ j → ∀ w ∈ tx.writes, ∀ w' ∈ tx'.writes, M.key w ≠ M.key w'

theorem getElem?_start {database : δ} {data : List τ} {t : ℕ} {tx : Transaction σ ω τ}
    (h : (Server.start database data).transactions[t]? = some tx) :
    ∃ d, data[t]? = some d ∧ tx = ⟨d, .start, []⟩ := by
  rw [Server.start, List.getElem?_map] at h
  obtain ⟨d, hd, rfl⟩ := Option.map_eq_some_iff.mp h
  exact ⟨d, hd, rfl⟩

omit [DecidableEq κ] in
theorem sound_start (database : δ) (data : List τ) :
    M.Sound (Server.start (σ := σ) (ω := ω) database data) := by
  have hnil : ∀ (t : ℕ) (tx : Transaction σ ω τ),
      (Server.start database data).transactions[t]? = some tx → tx.writes = [] := by
    intro t tx htx
    obtain ⟨d, -, rfl⟩ := getElem?_start htx
    rfl
  refine ⟨fun t tx htx _ => hnil t tx htx, fun i j tx tx' hi _ _ w hw => ?_⟩
  rw [hnil i tx hi] at hw
  cases hw

/-- **What a step leaves of its transaction**: it has written no rows but those
it had and free ones. -/
theorem Rule.exists_set {i : ServerInput ι} (h : M.Rule s t tx i s')
    (hidle : ¬tx.stage.Open → tx.writes = []) :
    ∃ tx', s'.transactions = s.transactions.set t tx' ∧ (¬tx'.stage.Open → tx'.writes = []) ∧
      ∀ w ∈ tx'.writes, w ∈ tx.writes ∨ M.holder s t (M.key w) = none := by
  cases h with
  | raises hstage hfirst =>
    have hnil : tx.writes = [] := hidle (by rw [hstage]; exact id)
    exact ⟨_, rfl, fun _ => hnil, fun w hw => Or.inl hw⟩
  | first hstage hfirst => exact ⟨_, rfl, fun hno => absurd trivial hno, fun w hw => Or.inl hw⟩
  | statement hstage => exact ⟨_, rfl, fun hno => absurd trivial hno, fun w hw => Or.inl hw⟩
  | waits hstage hk hheld => exact ⟨_, rfl, fun hno => absurd trivial hno, fun w hw => Or.inl hw⟩
  | fails htakes hfree hcheck =>
    exact ⟨_, rfl, fun _ => rfl, fun w hw => absurd hw List.not_mem_nil⟩
  | skips htakes hfree hcheck =>
    exact ⟨_, rfl, fun hno => absurd trivial hno, fun w hw => Or.inl hw⟩
  | passes htakes hfree hcheck =>
    refine ⟨_, rfl, fun hno => absurd trivial hno, fun w hw => ?_⟩
    rcases List.mem_append.mp hw with hw | hw
    · exact Or.inl hw
    · rw [List.mem_singleton.mp hw]
      exact Or.inr hfree
  | commits hstage => exact ⟨_, rfl, fun _ => rfl, fun w hw => absurd hw List.not_mem_nil⟩
  | killed hstage hdeadlock => exact ⟨_, rfl, fun _ => rfl, fun w hw => absurd hw List.not_mem_nil⟩

theorem sound_step {i : ServerInput ι} (hs : M.Sound s) (h : M.step s i = some s') :
    M.Sound s' := by
  obtain ⟨tx, htx, hrule⟩ := rule_of_step h
  obtain ⟨tx', hset, hidle, hwrites⟩ := hrule.exists_set (hs.idle _ _ htx)
  have hget := fun j => getElem?_set_of_some htx tx' j
  rw [← hset] at hget
  -- another transaction has not written what this one has
  have hother : ∀ j tx₂, j ≠ i.transaction → s'.transactions[j]? = some tx₂ →
      ∀ w ∈ tx'.writes, ∀ w' ∈ tx₂.writes, M.key w ≠ M.key w' := by
    intro j tx₂ hne hj w hw w' hw'
    rw [hget, if_neg hne] at hj
    rcases hwrites w hw with hold | hfree
    · exact hs.exclusive _ j _ _ htx hj hne.symm w hold w' hw'
    · exact (holder_eq_none.mp hfree j tx₂ hj hne w' hw').symm
  refine ⟨fun j tx₁ hj hno => ?_, fun i₁ j tx₁ tx₂ hi hj hne w hw w' hw' => ?_⟩
  · rw [hget] at hj
    split at hj
    · obtain rfl := Option.some.inj hj
      exact hidle hno
    · exact hs.idle j tx₁ hj hno
  · by_cases hi₁ : i₁ = i.transaction
    · have htx₁ := hget i₁
      rw [if_pos hi₁, hi] at htx₁
      obtain rfl := Option.some.inj htx₁
      exact hother j tx₂ (fun hj' => hne (hi₁.trans hj'.symm)) hj w hw w' hw'
    · by_cases hj₁ : j = i.transaction
      · have htx₂ := hget j
        rw [if_pos hj₁, hj] at htx₂
        obtain rfl := Option.some.inj htx₂
        exact (hother i₁ tx₁ hi₁ hi w' hw' w hw).symm
      · rw [hget, if_neg hi₁] at hi
        rw [hget, if_neg hj₁] at hj
        exact hs.exclusive i₁ j tx₁ tx₂ hi hj hne w hw w' hw'

/-! ### How a transaction goes on -/

/-- **A transaction that goes on** has not finished, and does not start again; the
local data of one that has begun changes only by what statements leave in it. -/
theorem Rule.moves {i : ServerInput ι} (h : M.Rule s t tx i s') :
    tx.stage ≠ .committed ∧ tx.stage ≠ .aborted ∧
      ∃ tx', s'.transactions = s.transactions.set t tx' ∧ tx'.stage ≠ .start ∧
        (tx.stage = .start ∨ tx'.data = tx.data ∨
          ∃ database statement, tx'.data = M.answer database statement tx.data) := by
  have hopen : tx.stage.Open → tx.stage ≠ .committed ∧ tx.stage ≠ .aborted := by
    intro hopen
    constructor
    · intro heq
      rw [heq] at hopen
      exact hopen
    · intro heq
      rw [heq] at hopen
      exact hopen
  cases h with
  | raises hstage hfirst =>
    rw [hstage]
    exact ⟨nofun, nofun, _, rfl, nofun, Or.inl rfl⟩
  | first hstage hfirst =>
    rw [hstage]
    exact ⟨nofun, nofun, _, rfl, nofun, Or.inl rfl⟩
  | statement hstage =>
    rw [hstage]
    exact ⟨nofun, nofun, _, rfl, nofun, Or.inr (Or.inr ⟨_, _, rfl⟩)⟩
  | waits hstage hk hheld =>
    rw [hstage]
    exact ⟨nofun, nofun, _, rfl, nofun, Or.inr (Or.inl rfl)⟩
  | fails htakes hfree hcheck =>
    obtain ⟨hcommitted, haborted⟩ := hopen htakes.isOpen
    exact ⟨hcommitted, haborted, _, rfl, nofun, Or.inr (Or.inl rfl)⟩
  | skips htakes hfree hcheck =>
    obtain ⟨hcommitted, haborted⟩ := hopen htakes.isOpen
    exact ⟨hcommitted, haborted, _, rfl, nofun, Or.inr (Or.inl rfl)⟩
  | passes htakes hfree hcheck =>
    obtain ⟨hcommitted, haborted⟩ := hopen htakes.isOpen
    exact ⟨hcommitted, haborted, _, rfl, nofun, Or.inr (Or.inl rfl)⟩
  | commits hstage =>
    rw [hstage]
    exact ⟨nofun, nofun, _, rfl, nofun, Or.inr (Or.inl rfl)⟩
  | killed hstage hdeadlock =>
    rw [hstage]
    exact ⟨nofun, nofun, _, rfl, nofun, Or.inr (Or.inl rfl)⟩

section Work

variable {β : Type*}

/-- What a transaction has written and what it is still going to write, as far as
`f` and `g` tell of a row and of a statement to come. -/
def work (f : ω → List β) (g : σ → List β) (tx : Transaction σ ω τ) : List β :=
  tx.writes.flatMap f ++ (tx.stage.rows.flatMap f ++ tx.stage.statements.flatMap g)

variable {f : ω → List β} {g : σ → List β}

theorem mem_work_of_mem_writes {row : ω} (hrow : row ∈ tx.writes) {x : β} (hx : x ∈ f row) :
    x ∈ work f g tx :=
  List.mem_append_left _ (List.mem_flatMap.mpr ⟨row, hrow, hx⟩)

theorem mem_work_of_mem_rows {row : ω} (hrow : row ∈ tx.stage.rows) {x : β} (hx : x ∈ f row) :
    x ∈ work f g tx :=
  List.mem_append_right _ (List.mem_append_left _ (List.mem_flatMap.mpr ⟨row, hrow, hx⟩))

/-- **The work of a transaction that has begun only gets less**, when a statement
writes no more rows than `g` tells. -/
theorem Rule.work_subperm [DecidableEq β] {i : ServerInput ι} (h : M.Rule s t tx i s')
    (hrows : ∀ database st, ((M.rows database st).flatMap f).Subperm (g st))
    (hstage : tx.stage ≠ .start) :
    ∃ tx', s'.transactions = s.transactions.set t tx' ∧
      (work f g tx').Subperm (work f g tx) := by
  cases h with
  | raises hstart hfirst => exact absurd hstart hstage
  | first hstart hfirst => exact absurd hstart hstage
  | statement hstage =>
    rename_i statement statements
    refine ⟨_, rfl, List.subperm_ext_iff.mpr fun x _ => ?_⟩
    have hcount := (hrows (M.view s.database tx) statement).count_le x
    rw [work, work, hstage]
    simp only [Stage.rows, Stage.statements, List.flatMap_nil, List.flatMap_cons, List.count_append,
      List.count_nil]
    omega
  | waits hstage hk hheld =>
    refine ⟨_, rfl, List.Perm.subperm ?_⟩
    rw [work, work, hstage]
    exact (((perm_cons_eraseIdx hk).symm.flatMap_right f).append_right _).append_left _
  | fails htakes hfree hcheck => exact ⟨_, rfl, List.nil_subperm⟩
  | skips htakes hfree hcheck =>
    refine ⟨_, rfl, List.subperm_ext_iff.mpr fun x _ => ?_⟩
    have hcount := ((htakes.rows_perm.flatMap_right f).count_eq x)
    rw [work, work, htakes.statements_eq]
    simp only [Stage.rows, Stage.statements, List.flatMap_cons, List.count_append] at hcount ⊢
    omega
  | passes htakes hfree hcheck =>
    refine ⟨_, rfl, List.subperm_ext_iff.mpr fun x _ => ?_⟩
    have hcount := ((htakes.rows_perm.flatMap_right f).count_eq x)
    rw [work, work, htakes.statements_eq]
    simp only [Stage.rows, Stage.statements, List.flatMap_cons, List.flatMap_append,
      List.flatMap_nil, List.append_nil, List.count_append] at hcount ⊢
    omega
  | commits hstage => exact ⟨_, rfl, List.nil_subperm⟩
  | killed hstage hdeadlock => exact ⟨_, rfl, List.nil_subperm⟩

end Work

/-- Where every transaction has finished, nothing goes on. -/
theorem step_eq_none_of_finished
    (hfinished : ∀ tx ∈ s.transactions, tx.stage = .committed ∨ tx.stage = .aborted)
    (i : ServerInput ι) : M.step s i = none := by
  cases hstep : M.step s i with
  | none => rfl
  | some s' =>
    obtain ⟨tx, htx, hrule⟩ := rule_of_step hstep
    obtain ⟨hcommitted, haborted, -⟩ := hrule.moves
    rcases hfinished tx (List.mem_of_getElem? htx) with hstage | hstage
    · exact absurd hstage hcommitted
    · exact absurd hstage haborted

/-- A transaction whose first statement can run can start. -/
theorem exists_step_of_start (htx : s.transactions[t]? = some tx) (hstage : tx.stage = .start)
    {choice : ι} {data : τ} {statements : Option (List σ)}
    (hfirst : M.first (M.view s.database tx) tx.data choice = some (data, statements)) :
    ∃ (i : ServerInput ι) (s' : Server δ σ ω τ), M.step s i = some s' := by
  refine ⟨.first t choice, Option.isSome_iff_exists.mp ?_⟩
  rw [step, ServerInput.transaction, htx, Option.bind_some, stepTransaction, hstage]
  simp only [hfirst]
  cases statements <;> rfl

/-- A transaction that waits for nothing can go on. -/
theorem exists_step_of_writing (htx : s.transactions[t]? = some tx) {rows : List ω}
    {statements : List σ} (hstage : tx.stage = .writing rows statements) :
    ∃ (i : ServerInput ι) (s' : Server δ σ ω τ), M.step s i = some s' := by
  cases rows with
  | nil =>
    cases statements with
    | nil => exact ⟨.commit t, _, by rw [step, ServerInput.transaction, htx, Option.bind_some,
        stepTransaction, hstage]⟩
    | cons statement statements => exact ⟨.statement t, _, by
        rw [step, ServerInput.transaction, htx, Option.bind_some, stepTransaction, hstage]⟩
  | cons row rows =>
    refine ⟨.write t 0, Option.isSome_iff_exists.mp ?_⟩
    rw [step, ServerInput.transaction, htx, Option.bind_some, stepTransaction, hstage]
    simp only [List.getElem?_cons_zero]
    split <;> rfl

/-! ### Runs end -/

variable (M) in
/-- How many steps a transaction may still take: given for one whose first
statement is to come and satisfies `P`, and for a statement to come, which takes
at most two for each of its rows. -/
structure Budget (P : τ → Prop) where
  first : τ → ℕ
  statement : σ → ℕ
  first_pos : ∀ data, P data → 1 ≤ first data
  first_le : ∀ database data choice data' statements, P data →
    M.first database data choice = some (data', some statements) →
      (statements.map statement).sum + 2 ≤ first data
  rows_le : ∀ database st, 2 * (M.rows database st).length + 1 ≤ statement st

namespace Budget

variable {P : τ → Prop} (b : M.Budget P)

/-- How many steps a transaction may still take. -/
def remaining (tx : Transaction σ ω τ) : ℕ :=
  match tx.stage with
  | .start => b.first tx.data
  | .writing rows statements => 2 * rows.length + (statements.map b.statement).sum + 1
  | .waiting _ rows statements => 2 * rows.length + (statements.map b.statement).sum + 2
  | .committed | .aborted => 0

omit [DecidableEq κ] in
theorem remaining_of_takes {i : ServerInput ι} {row : ω} {rows : List ω} {statements : List σ}
    (h : Takes tx i row rows statements) :
    2 * rows.length + (statements.map b.statement).sum + 1 < b.remaining tx := by
  cases h with
  | write hstage hk =>
    have hlen := (perm_cons_eraseIdx hk).length_eq
    rw [List.length_cons] at hlen
    rw [remaining, hstage]
    simp only
    omega
  | resume hstage =>
    rw [remaining, hstage]
    exact Nat.lt_succ_self _

/-- **A step uses up some of the budget.** -/
theorem remaining_lt {i : ServerInput ι} (h : M.Rule s t tx i s')
    (hP : tx.stage = .start → P tx.data) :
    ∃ tx', s'.transactions = s.transactions.set t tx' ∧ b.remaining tx' < b.remaining tx := by
  have hfinish : ∀ {rows : List ω} {statements : List σ}, tx.stage = .writing rows statements →
      0 < b.remaining tx := by
    intro rows statements hstage
    rw [remaining, hstage]
    exact Nat.succ_pos _
  cases h with
  | raises hstage hfirst =>
    refine ⟨_, rfl, ?_⟩
    have hpos := b.first_pos _ (hP hstage)
    rw [remaining, remaining, hstage]
    exact hpos
  | first hstage hfirst =>
    refine ⟨_, rfl, ?_⟩
    have hle := b.first_le _ _ _ _ _ (hP hstage) hfirst
    rw [remaining, remaining, hstage]
    simp only [List.length_nil]
    omega
  | statement hstage =>
    rename_i statement statements
    refine ⟨_, rfl, ?_⟩
    have hle := b.rows_le (M.view s.database tx) statement
    rw [remaining, remaining, hstage]
    simp only [List.length_nil, List.map_cons, List.sum_cons]
    omega
  | waits hstage hk hheld =>
    refine ⟨_, rfl, ?_⟩
    have hlen := (perm_cons_eraseIdx hk).length_eq
    rw [List.length_cons] at hlen
    rw [remaining, remaining, hstage]
    simp only
    omega
  | fails htakes hfree hcheck =>
    exact ⟨_, rfl, lt_of_le_of_lt (Nat.zero_le _) (b.remaining_of_takes htakes)⟩
  | skips htakes hfree hcheck => exact ⟨_, rfl, b.remaining_of_takes htakes⟩
  | passes htakes hfree hcheck => exact ⟨_, rfl, b.remaining_of_takes htakes⟩
  | commits hstage => exact ⟨_, rfl, hfinish hstage⟩
  | killed hstage hdeadlock =>
    refine ⟨_, rfl, ?_⟩
    rw [remaining, remaining, hstage]
    exact Nat.succ_pos _

/-- **A run is no longer than the budget of its transactions.** -/
theorem length_le {is : List (ServerInput ι)}
    (hs : ∀ tx ∈ s.transactions, tx.stage = .start → P tx.data)
    (h : M.machine.run s is = some s') : is.length ≤ (s.transactions.map b.remaining).sum := by
  have hle := Machine.length_add_le_of_run (M := M.machine)
    (I := fun s => ∀ tx ∈ s.transactions, tx.stage = .start → P tx.data)
    (f := fun s => (s.transactions.map b.remaining).sum) ?_ ?_ hs h
  · omega
  · intro s i u hs hstep tx' htx' hstart
    obtain ⟨tx, htx, hrule⟩ := rule_of_step hstep
    obtain ⟨-, -, tx₁, hset, hno, -⟩ := hrule.moves
    rw [hset] at htx'
    rcases List.mem_or_eq_of_mem_set htx' with hold | rfl
    · exact hs tx' hold hstart
    · exact absurd hstart hno
  · intro s i u hs hstep
    obtain ⟨tx, htx, hrule⟩ := rule_of_step hstep
    obtain ⟨tx', hset, hlt⟩ := b.remaining_lt hrule (hs tx (List.mem_of_getElem? htx))
    have hsum := sum_map_eraseIdx b.remaining htx
    have hsum' := sum_map_set b.remaining htx tx'
    rw [hset]
    omega

end Budget

end Schema

end Lib.ReadCommitted
