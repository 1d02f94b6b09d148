import Mathlib.Data.Int.Cast.Defs
import Mathlib.Data.Int.Notation
import Mathlib.Data.Set.Defs
import UsbipIce.Lib.Pool

/-!
# Polls

A job that is run again and again, each time starting a thread, on a clock
(`Lib.Polls`). The threads run beside each other, each at its own pace, and what
happens to them is a matter of the program; here it is only when.

If the job is run at least every `period`, every moment is *covered* by one of the
runs (`Lib.Polls.Covered`). If besides no thread is more than `delay` old before it
is done with its task (`Lib.Polls.OnTime`), there is always one that is done and
not much older than that (`Lib.Polls.Covered.exists_done`), and after any moment
there is soon one (`Lib.Polls.Covered.exists_after`).
-/

namespace Lib

/-- A thread, with the moment at which it was started. -/
structure Thread (φ : Type*) where
  started : ℤ
  phase : φ

/-- A job: the moment at which it was last run, and the threads it has started. -/
structure Polls (φ : Type*) where
  now : ℤ
  polled : ℤ
  threads : List (Thread φ)

namespace Polls

variable {φ : Type*} {p : Polls φ} {k : ℕ} {thread : Thread φ} {phase : φ}

/-- Before the job is run. -/
def start (now : ℤ) : Polls φ := ⟨now, now, []⟩

/-- Time passes. -/
def tick (p : Polls φ) (d : ℕ) : Polls φ := { p with now := p.now + d }

/-- The job is run. -/
def poll (p : Polls φ) (phase : φ) : Polls φ :=
  { p with polled := p.now, threads := p.threads ++ [⟨p.now, phase⟩] }

/-- A thread goes on. -/
def setPhase (p : Polls φ) (k : ℕ) (thread : Thread φ) (phase : φ) : Polls φ :=
  { p with threads := p.threads.set k { thread with phase := phase } }

theorem mem_poll {thread : Thread φ} (h : thread ∈ (p.poll phase).threads) :
    thread ∈ p.threads ∨ thread = ⟨p.now, phase⟩ :=
  (List.mem_append.mp h).imp_right List.mem_singleton.mp

theorem mem_setPhase {thread' : Thread φ} (h : thread' ∈ (p.setPhase k thread phase).threads) :
    thread' ∈ p.threads ∨ thread' = { thread with phase := phase } :=
  List.mem_or_eq_of_mem_set h

/-! ### Order -/

/-- Nothing has been started that is yet to come. -/
structure Orderly (p : Polls φ) : Prop where
  polled : p.polled ≤ p.now
  started : ∀ thread ∈ p.threads, thread.started ≤ p.now

theorem orderly_start (now : ℤ) : Orderly (start now : Polls φ) :=
  ⟨Int.le_refl _, fun _ h => absurd h List.not_mem_nil⟩

theorem Orderly.tick (h : p.Orderly) (d : ℕ) : (p.tick d).Orderly := by
  have hle : ∀ {u : ℤ}, u ≤ p.now → u ≤ p.now + d := fun hu => by omega
  exact ⟨hle h.polled, fun thread hthread => hle (h.started thread hthread)⟩

theorem Orderly.poll (h : p.Orderly) (phase : φ) : (p.poll phase).Orderly := by
  refine ⟨Int.le_refl _, fun thread hthread => ?_⟩
  rcases mem_poll hthread with hold | rfl
  · exact h.started thread hold
  · exact Int.le_refl _

theorem Orderly.setPhase (h : p.Orderly) (hk : p.threads[k]? = some thread) (phase : φ) :
    (p.setPhase k thread phase).Orderly := by
  refine ⟨h.polled, fun thread' hthread' => ?_⟩
  rcases mem_setPhase hthread' with hold | rfl
  · exact h.started thread' hold
  · exact h.started thread (List.mem_of_getElem? hk)

/-- The last run is not long ago, and no thread that is not done has been on its
way for long. -/
structure OnTime (awaits : φ → Prop) (period delay : ℕ) (p : Polls φ) : Prop where
  polled : p.now ≤ p.polled + period
  passed : ∀ thread ∈ p.threads, awaits thread.phase → p.now ≤ thread.started + delay

instance (awaits : φ → Prop) [DecidablePred awaits] (period delay : ℕ) (p : Polls φ) :
    Decidable (OnTime awaits period delay p) :=
  decidable_of_iff (p.now ≤ p.polled + period ∧
      ∀ thread ∈ p.threads, awaits thread.phase → p.now ≤ thread.started + delay)
    ⟨fun h => ⟨h.1, h.2⟩, fun h => ⟨h.polled, h.passed⟩⟩

/-! ### Coverage -/

/-- The moments at which the job was run, since `base`. -/
def begins (base : ℤ) (p : Polls φ) : Set ℤ :=
  {u | u = base ∨ ∃ thread ∈ p.threads, thread.started = u}

/-- **From `base` on, every moment is less than `period` after a run of the job.** -/
structure Covered (base : ℤ) (period : ℕ) (p : Polls φ) : Prop where
  polled : p.polled ∈ p.begins base
  covers : ∀ u, base ≤ u → u < p.now → ∃ v ∈ p.begins base, v ≤ u ∧ u < v + period

/-- At first, the last run covers what has passed since. -/
theorem covered_polled {period : ℕ} (h : p.now ≤ p.polled + period) : p.Covered p.polled period :=
  ⟨Or.inl rfl, fun _ hu hlt => ⟨p.polled, Or.inl rfl, hu, by omega⟩⟩

section Covered

variable {base : ℤ} {period : ℕ}

theorem begins_poll {v : ℤ} (h : v ∈ p.begins base) (phase : φ) :
    v ∈ (p.poll phase).begins base :=
  Or.imp_right (fun ⟨thread, hthread, heq⟩ => ⟨thread, List.mem_append_left _ hthread, heq⟩) h

theorem begins_setPhase {v : ℤ} (h : v ∈ p.begins base) (hk : p.threads[k]? = some thread)
    (phase : φ) : v ∈ (p.setPhase k thread phase).begins base := by
  refine Or.imp_right ?_ h
  rintro ⟨thread', hthread', rfl⟩
  rcases (mem_iff_eq_or_mem_eraseIdx hk).mp hthread' with rfl | hother
  · exact ⟨_, (mem_set_of_some hk).mpr (Or.inl rfl), rfl⟩
  · exact ⟨thread', (mem_set_of_some hk).mpr (Or.inr hother), rfl⟩

/-- **The last run covers what passes**, for as long as it is recent. -/
theorem Covered.tick (h : p.Covered base period) (horderly : p.Orderly) {d : ℕ}
    (hrecent : (p.tick d).now ≤ (p.tick d).polled + period) : (p.tick d).Covered base period := by
  refine ⟨h.polled, fun u hu hlt => ?_⟩
  have hpolled := horderly.polled
  simp only [Polls.tick] at hrecent hlt
  by_cases hold : u < p.now
  · exact h.covers u hu hold
  · exact ⟨p.polled, h.polled, by omega, by omega⟩

theorem Covered.poll (h : p.Covered base period) (phase : φ) :
    (p.poll phase).Covered base period := by
  refine ⟨Or.inr ⟨_, List.mem_append_right _ List.mem_cons_self, rfl⟩, fun u hu hlt => ?_⟩
  obtain ⟨v, hv, hcover⟩ := h.covers u hu hlt
  exact ⟨v, begins_poll hv phase, hcover⟩

theorem Covered.setPhase (h : p.Covered base period) (hk : p.threads[k]? = some thread)
    (phase : φ) : (p.setPhase k thread phase).Covered base period := by
  refine ⟨begins_setPhase h.polled hk phase, fun u hu hlt => ?_⟩
  obtain ⟨v, hv, hcover⟩ := h.covers u hu hlt
  exact ⟨v, begins_setPhase hv hk phase, hcover⟩

variable {awaits : φ → Prop} {delay : ℕ}

/-- **There is always a run whose thread is done**, and that is not much older
than that. -/
theorem Covered.exists_done (h : p.Covered base period) (honTime : p.OnTime awaits period delay)
    (hbase : base < p.now - delay) :
    ∃ v, p.now ≤ v + period + delay ∧
      (v = base ∨ ∃ thread ∈ p.threads, thread.started = v ∧ ¬awaits thread.phase) := by
  obtain ⟨v, hv, hle, hlt⟩ := h.covers (p.now - delay - 1) (by omega) (by omega)
  refine ⟨v, by omega, hv.imp_right ?_⟩
  rintro ⟨thread, hthread, rfl⟩
  refine ⟨thread, hthread, rfl, fun hawaits => ?_⟩
  have hpassed := honTime.passed thread hthread hawaits
  omega

/-- **After any moment there is soon a run**, whose thread is done in time. -/
theorem Covered.exists_after (h : p.Covered base period) (honTime : p.OnTime awaits period delay)
    {u : ℤ} (hbase : base ≤ u) (hlt : u + period + delay < p.now) :
    ∃ thread ∈ p.threads, u < thread.started ∧ thread.started ≤ u + period ∧
      ¬awaits thread.phase := by
  obtain ⟨v, hv, hle, hcover⟩ := h.covers (u + period) (by omega) (by omega)
  rcases hv with rfl | ⟨thread, hthread, rfl⟩
  · omega
  · refine ⟨thread, hthread, by omega, hle, fun hawaits => ?_⟩
    have hpassed := honTime.passed thread hthread hawaits
    omega

end Covered

end Polls

end Lib
