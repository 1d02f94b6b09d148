import UsbipIce.Worker.States

/-!
# The life of a state object

What `Device.switch` owes its state objects, as a property of the log of a
device (`UsbipIce.Lifecycle`): an object is installed once, after every object
installed before it has been exited; it is exited at most once; and no handler
of it is called from then on.

The code keeps this promise as long as a factory called by `switch` does its
work and nothing else (`UsbipIce.StateTable.Clean`). A factory that raises
leaves the object that was just exited in place, and events go on being
dispatched to it (`UsbipIce.Worker.usbip_dispatches`); a factory that calls
`switch` has the old object exited once more.
-/

namespace UsbipIce

open Lib

/-- **The life of state objects**, told by a log with the latest effect
first. -/
def Lifecycle : List Effect → Prop
  | [] => True
  | .start o :: past =>
    .start o ∉ past ∧ (∀ o', .start o' ∈ past → .exit o' ∈ past) ∧ Lifecycle past
  | .exit o :: past => .start o ∈ past ∧ .exit o ∉ past ∧ Lifecycle past
  | .dispatch _ o :: past => .start o ∈ past ∧ .exit o ∉ past ∧ Lifecycle past
  | .status _ :: past => Lifecycle past

/-- Only installed objects are exited. -/
theorem Lifecycle.start_of_exit {log : List Effect} (h : Lifecycle log) {o : ℕ}
    (ho : .exit o ∈ log) : .start o ∈ log := by
  induction log with
  | nil => cases ho
  | cons e past ih =>
    cases e with
    | status st => exact List.mem_cons_of_mem _ (ih h (by simpa using ho))
    | start o' => exact List.mem_cons_of_mem _ (ih h.2.2 (by simpa using ho))
    | dispatch m o' => exact List.mem_cons_of_mem _ (ih h.2.2 (by simpa using ho))
    | exit o' =>
      rcases List.mem_cons.mp ho with heq | ho
      · obtain rfl := Effect.exit.inj heq
        exact List.mem_cons_of_mem _ h.1
      · exact List.mem_cons_of_mem _ (ih h.2.2 ho)

/-- A call that is not a phase of `Device.switch`. -/
def Frame.Settled {F : Type*} : Frame F → Prop
  | .code .. | .unlock _ => True
  | .handleExit | .stateFactory _ | .install _ => False

namespace StateTable

variable {F I : Type*} {P : StateTable F I}

/-- The thread holding the lock is not about to raise or to switch within a
factory that replaces an object. -/
def cleanStack (d : Device F) : Bool :=
  match d.stack with
  | .code _ (.raise :: _) :: .install _ :: _ => d.current.isNone
  | .code o (.switch _ :: _) :: .install _ :: _ => (d.objects[o]?).all (·.switching)
  | _ => true

/-- **A factory does its work and nothing else**: while it runs with an object
installed it does not raise, and it does not switch. -/
def Clean (r : DeviceRun F) : DeviceInput I → Prop
  | .step (.exec _) => cleanStack r.device
  | .step _ | .handleReserve _ | .handleUnreserve => True

instance (r : DeviceRun F) : ∀ i : DeviceInput I, Decidable (Clean r i)
  | .step (.exec _) => inferInstanceAs (Decidable (_ = true))
  | .step (.event ..) | .step (.request _) | .step (.fire _) | .step (.thread _) => .isTrue trivial
  | .handleReserve _ | .handleUnreserve => .isTrue trivial

/-! ### The phases of a switch -/

/-- The current object is alive, and the installed ones before it are not. -/
structure Live (current : Option ℕ) (log : List Effect) : Prop where
  alive : ∀ o, current = some o → .start o ∈ log ∧ .exit o ∉ log
  exited : ∀ o, .start o ∈ log → current ≠ some o → .exit o ∈ log

/-- Every installed object has been exited. -/
def AllExited (log : List Effect) : Prop := ∀ o, .start o ∈ log → .exit o ∈ log

/-- Where the thread holding the lock is in `Device.switch`, and who is alive
then. -/
inductive Phase (stack : List (Frame F)) (current : Option ℕ) (log : List Effect) : Prop
  /-- Nowhere. -/
  | live (hs : ∀ x ∈ stack, x.Settled) (h : Live current log)
  /-- About to exit the current object. -/
  | exiting {f : F} {rest : List (Frame F)} (hs : stack = .handleExit :: .stateFactory f :: rest)
      (hrest : ∀ x ∈ rest, x.Settled) (h : Live current log)
  /-- About to call the factory. -/
  | building {f : F} {rest : List (Frame F)} (hs : stack = .stateFactory f :: rest)
      (hrest : ∀ x ∈ rest, x.Settled) (h : AllExited log)
  /-- In the constructor. -/
  | initializing {o : ℕ} {cs : List (Command F)} {rest : List (Frame F)}
      (hs : stack = .code o cs :: .install o :: rest) (hrest : ∀ x ∈ rest, x.Settled)
      (h : AllExited log) (hnew : .start o ∉ log)
  /-- About to install the new object. -/
  | installing {o : ℕ} {rest : List (Frame F)} (hs : stack = .install o :: rest)
      (hrest : ∀ x ∈ rest, x.Settled) (h : AllExited log) (hnew : .start o ∉ log)

/-- The invariant of the runs whose factories are clean. -/
structure LifecycleInv (r : DeviceRun F) : Prop where
  lifecycle : Lifecycle r.log
  /-- What was installed was made. -/
  made : ∀ o, .start o ∈ r.log → o < r.device.objects.length
  phase : Phase r.device.stack r.device.current r.log

section Phase

variable {stack : List (Frame F)} {current : Option ℕ} {log : List Effect} {o : ℕ}
  {cs cs' : List (Command F)} {rest : List (Frame F)}

/-- While a method runs, nobody is in `switch`, or it is the constructor of the new
object. -/
theorem Phase.of_code (h : Phase stack current log) (hs : stack = .code o cs :: rest) :
    (∀ x ∈ rest, x.Settled) ∧ Live current log ∨
      ∃ rest', rest = .install o :: rest' ∧ (∀ x ∈ rest', x.Settled) ∧ AllExited log ∧
        .start o ∉ log := by
  cases h with
  | live hset h => exact Or.inl ⟨fun x hx => hset x (hs ▸ List.mem_cons_of_mem _ hx), h⟩
  | exiting hs' => cases hs.symm.trans hs'
  | building hs' => cases hs.symm.trans hs'
  | initializing hs' hrest h hnew =>
    cases hs.symm.trans hs'
    exact Or.inr ⟨_, rfl, hrest, h, hnew⟩
  | installing hs' => cases hs.symm.trans hs'

/-- Who releases the lock is not in `switch`. -/
theorem Phase.of_unlock (h : Phase stack current log) (hs : stack = .unlock o :: rest) :
    (∀ x ∈ rest, x.Settled) ∧ Live current log := by
  cases h with
  | live hset h => exact ⟨fun x hx => hset x (hs ▸ List.mem_cons_of_mem _ hx), h⟩
  | exiting hs' => cases hs.symm.trans hs'
  | building hs' => cases hs.symm.trans hs'
  | initializing hs' => cases hs.symm.trans hs'
  | installing hs' => cases hs.symm.trans hs'

/-- The call of `handleExit` is followed by that of the factory. -/
theorem Phase.of_exit (h : Phase stack current log) (hs : stack = .handleExit :: rest) :
    ∃ f rest', rest = .stateFactory f :: rest' ∧ (∀ x ∈ rest', x.Settled) ∧ Live current log := by
  cases h with
  | live hset _ => exact absurd (hset _ (hs ▸ List.mem_cons_self)) id
  | exiting hs' hrest h =>
    cases hs.symm.trans hs'
    exact ⟨_, _, rfl, hrest, h⟩
  | building hs' => cases hs.symm.trans hs'
  | initializing hs' => cases hs.symm.trans hs'
  | installing hs' => cases hs.symm.trans hs'

/-- Before the factory is called, everything has been exited. -/
theorem Phase.of_build {f : F} (h : Phase stack current log)
    (hs : stack = .stateFactory f :: rest) : (∀ x ∈ rest, x.Settled) ∧ AllExited log := by
  cases h with
  | live hset _ => exact absurd (hset _ (hs ▸ List.mem_cons_self)) id
  | exiting hs' => cases hs.symm.trans hs'
  | building hs' hrest h =>
    cases hs.symm.trans hs'
    exact ⟨hrest, h⟩
  | initializing hs' => cases hs.symm.trans hs'
  | installing hs' => cases hs.symm.trans hs'

/-- Before the new object is installed, everything has been exited, and it has not
started. -/
theorem Phase.of_install (h : Phase stack current log) (hs : stack = .install o :: rest) :
    (∀ x ∈ rest, x.Settled) ∧ AllExited log ∧ .start o ∉ log := by
  cases h with
  | live hset _ => exact absurd (hset _ (hs ▸ List.mem_cons_self)) id
  | exiting hs' => cases hs.symm.trans hs'
  | building hs' => cases hs.symm.trans hs'
  | initializing hs' => cases hs.symm.trans hs'
  | installing hs' hrest h hnew =>
    cases hs.symm.trans hs'
    exact ⟨hrest, h, hnew⟩

/-- A method goes on within its object. -/
theorem Phase.code (h : Phase stack current log) (hs : stack = .code o cs :: rest) :
    Phase (.code o cs' :: rest) current log := by
  obtain ⟨hset, hlive⟩ | ⟨rest', rfl, hrest, hall, hnew⟩ := h.of_code hs
  · exact .live (List.forall_mem_cons.mpr ⟨trivial, hset⟩) hlive
  · exact .initializing rfl hrest hall hnew

/-- A method returns. -/
theorem Phase.pop (h : Phase stack current log) (hs : stack = .code o cs :: rest) :
    Phase rest current log := by
  obtain ⟨hset, hlive⟩ | ⟨rest', rfl, hrest, hall, hnew⟩ := h.of_code hs
  · exact .live hset hlive
  · exact .installing rfl hrest hall hnew

/-- With the lock free nobody is in `switch`. -/
theorem Phase.of_nil (h : Phase stack current log) (hs : stack = []) : Live current log := by
  cases h with
  | live _ h => exact h
  | exiting hs' => cases hs.symm.trans hs'
  | building hs' => cases hs.symm.trans hs'
  | initializing hs' => cases hs.symm.trans hs'
  | installing hs' => cases hs.symm.trans hs'

end Phase

/-- An effect that is neither a start nor an exit changes no phase. -/
theorem Phase.cons {stack : List (Frame F)} {current : Option ℕ} {log : List Effect} {e : Effect}
    (hstart : ∀ o, e ≠ .start o) (hexit : ∀ o, e ≠ .exit o) (h : Phase stack current log) :
    Phase stack current (e :: log) := by
  have hs : ∀ o, .start o ∈ e :: log ↔ .start o ∈ log := fun o => by
    simp [(hstart o).symm]
  have he : ∀ o, .exit o ∈ e :: log ↔ .exit o ∈ log := fun o => by
    simp [(hexit o).symm]
  have hlive : Live current log → Live current (e :: log) := fun h =>
    ⟨fun o ho => by rw [hs, he]; exact h.alive o ho, fun o ho => by
      rw [he]; exact h.exited o ((hs o).mp ho)⟩
  have hall : AllExited log → AllExited (e :: log) := fun h o ho => by
    rw [he]; exact h o ((hs o).mp ho)
  cases h with
  | live hset h => exact .live hset (hlive h)
  | exiting hst hrest h => exact .exiting hst hrest (hlive h)
  | building hst hrest h => exact .building hst hrest (hall h)
  | initializing hst hrest h hnew => exact .initializing hst hrest (hall h) (by rwa [hs])
  | installing hst hrest h hnew => exact .installing hst hrest (hall h) (by rwa [hs])

/-! ### Every step keeps the promise -/

/-- **`handleExit`** exits the current object, if there is one, and nothing is left
alive. -/
theorem LifecycleInv.exit {d : Device F} {log : List Effect} {f : F} {rest : List (Frame F)}
    (hlife : Lifecycle log) (hmade : ∀ o, .start o ∈ log → o < d.objects.length)
    (hset : ∀ x ∈ rest, x.Settled) (hlive : Live d.current log) :
    LifecycleInv ⟨{ d with stack := .stateFactory f :: rest },
      (d.current.map Effect.exit).toList ++ log⟩ := by
  cases hcur : d.current with
  | none =>
    refine ⟨hlife, hmade, .building rfl hset fun o ho => hlive.exited o ho ?_⟩
    rw [hcur]
    exact (Option.some_ne_none o).symm
  | some o =>
    obtain ⟨hstart, hexit⟩ := hlive.alive o hcur
    refine ⟨⟨hstart, hexit, hlife⟩, fun o' ho' => hmade o' (by simpa using ho'),
      .building rfl hset fun o' ho' => ?_⟩
    by_cases heq : o' = o
    · exact heq ▸ List.mem_cons_self
    · refine List.mem_cons_of_mem _ (hlive.exited o' (by simpa using ho') ?_)
      rw [hcur]
      exact fun h' => heq (Option.some.inj h').symm

/-- **The new object is installed**: it is alive, and every other one has been
exited. -/
theorem LifecycleInv.install {d : Device F} {log : List Effect} {o : ℕ}
    {cs : List (Command F)} {rest : List (Frame F)} (hlife : Lifecycle log)
    (hmade : ∀ o, .start o ∈ log → o < d.objects.length) (ho : o < d.objects.length)
    (hset : ∀ x ∈ rest, x.Settled) (hall : AllExited log) (hnew : .start o ∉ log) :
    LifecycleInv ⟨{ d with current := some o, stack := .code o cs :: rest }, .start o :: log⟩ := by
  refine ⟨⟨hnew, hall, hlife⟩, fun o' ho' => ?_,
    .live (List.forall_mem_cons.mpr ⟨trivial, hset⟩) ⟨?_, fun o' ho' hne => ?_⟩⟩
  · rcases List.mem_cons.mp ho' with heq | ho'
    · obtain rfl := Effect.start.inj heq
      exact ho
    · exact hmade o' ho'
  · rintro o' heq
    obtain rfl := Option.some.inj heq
    refine ⟨List.mem_cons_self, fun hexit => hnew (hlife.start_of_exit ?_)⟩
    exact (List.mem_cons.mp hexit).resolve_left Effect.noConfusion
  · rcases List.mem_cons.mp ho' with heq | ho'
    · exact absurd (congrArg some (Effect.start.inj heq).symm) hne
    · exact List.mem_cons_of_mem _ (hall o' ho')

/-- **A call is dispatched** to the current object, which is alive. -/
theorem LifecycleInv.dispatch {d : Device F} {log : List Effect} {o : ℕ} {m : Method}
    {cs : List (Command F)} {rest : List (Frame F)} (hlife : Lifecycle log)
    (hmade : ∀ o, .start o ∈ log → o < d.objects.length) (hlive : Live d.current log)
    (hcur : d.current = some o) (hset : ∀ x ∈ rest, x.Settled) :
    LifecycleInv ⟨{ d with stack := .code o cs :: rest }, .dispatch m o :: log⟩ := by
  obtain ⟨hstart, hexit⟩ := hlive.alive o hcur
  refine ⟨⟨hstart, hexit, hlife⟩, fun o' ho' => hmade o' (by simpa using ho'), ?_⟩
  refine Phase.cons ?_ ?_ (.live (List.forall_mem_cons.mpr ⟨trivial, hset⟩) hlive)
  · exact fun o heq => Effect.noConfusion heq
  · exact fun o heq => Effect.noConfusion heq

/-- **What a rule does to the phase and the log**, where the factories are
clean. -/
theorem lifecycleInv_rule {r : DeviceRun F} {j : DeviceStep I} {d' : Device F} {e : Option Effect}
    (h : LifecycleInv r) (hclean : Clean (I := I) r (.step j)) (hrule : Rule P r.device j d' e) :
    LifecycleInv ⟨d', e.toList ++ r.log⟩ := by
  obtain ⟨d, log⟩ := r
  obtain ⟨hlife, hmade, hphase⟩ := h
  dsimp only at hlife hmade hphase hrule ⊢
  have hset : ∀ {o : ℕ} {obj : StateObject F}, ∀ o', .start o' ∈ log →
      o' < (d.objects.set o obj).length := fun o' ho' => by
    rw [List.length_set]
    exact hmade o' ho'
  cases hrule with
  | pop hs => exact ⟨hlife, hmade, hphase.pop hs⟩
  | unlock hs =>
    obtain ⟨hrest, hlive⟩ := hphase.of_unlock hs
    exact ⟨hlife, hmade, .live hrest hlive⟩
  | skip hs => exact ⟨hlife, hmade, hphase.code hs⟩
  | @status x o st cs rest hs =>
    refine ⟨hlife, fun o ho => hmade o (by simpa using ho), (hphase.code hs).cons ?_ ?_⟩
    · exact fun o heq => Effect.noConfusion heq
    · exact fun o heq => Effect.noConfusion heq
  | mark hs hobj => exact ⟨hlife, hset, hphase.code hs⟩
  | startTimer hs hobj => exact ⟨hlife, hset, hphase.code hs⟩
  | cancelTimer hs hobj => exact ⟨hlife, hset, hphase.code hs⟩
  | switch hs hobj hflag =>
    obtain ⟨hrest, hlive⟩ | ⟨rest', rfl, -, -, -⟩ := hphase.of_code hs
    · exact ⟨hlife, hset, .exiting rfl (List.forall_mem_cons.mpr ⟨trivial, hrest⟩) hlive⟩
    · -- a constructor that switches is not clean
      rw [Clean, cleanStack, hs] at hclean
      simp [hobj, hflag] at hclean
  | raise hs =>
    refine ⟨hlife, hmade, .live (by simp) ?_⟩
    obtain ⟨-, hlive⟩ | ⟨rest', rfl, -, hall, -⟩ := hphase.of_code hs
    · exact hlive
    · -- a constructor that raises is clean only where nothing was installed
      rw [Clean, cleanStack, hs] at hclean
      have hnone : d.current = none := Option.isNone_iff_eq_none.mp hclean
      refine ⟨fun o ho => ?_, fun o ho _ => hall o ho⟩
      exact absurd (hnone.symm.trans ho) (Option.some_ne_none o).symm
  | exit hs =>
    obtain ⟨f, rest', rfl, hrest, hlive⟩ := hphase.of_exit hs
    exact .exit hlife hmade hrest hlive
  | build hs =>
    obtain ⟨hrest, hall⟩ := hphase.of_build hs
    refine ⟨hlife, fun o ho => ?_, .initializing rfl hrest hall fun ho => ?_⟩
    · rw [List.length_append]
      exact Nat.lt_add_right _ (hmade o ho)
    · exact Nat.lt_irrefl _ (hmade _ ho)
  | install hs hobj =>
    obtain ⟨hrest, hall, hnew⟩ := hphase.of_install hs
    exact .install hlife hmade (List.getElem?_eq_some_iff.mp hobj).1 hrest hall hnew
  | idle => exact ⟨hlife, hmade, hphase⟩
  | event hs hcur hobj =>
    exact .dispatch hlife hmade (hphase.of_nil hs) hcur (by simp [Frame.Settled])
  | request hs hcur hobj =>
    exact .dispatch hlife hmade (hphase.of_nil hs) hcur (by simp)
  | fire hobj htimer => exact ⟨hlife, hset, hphase⟩
  | flashDefault hk =>
    refine ⟨hlife, fun o ho => hmade o (by simpa using ho), hphase.cons ?_ ?_⟩
    · exact fun o heq => Effect.noConfusion heq
    · exact fun o heq => Effect.noConfusion heq
  | deviceSwitch hk hs => exact ⟨hlife, hmade, .exiting rfl (by simp) (hphase.of_nil hs)⟩
  | stateSwitch hk hs => exact ⟨hlife, hmade, .exiting rfl (by simp) (hphase.of_nil hs)⟩
  | timerIgnored hk hobj hflag => exact ⟨hlife, hmade, hphase⟩
  | timerSwitch hk hobj hflag => exact ⟨hlife, hset, hphase⟩

theorem lifecycleInv_step {r r' : DeviceRun F} {i : DeviceInput I} (h : LifecycleInv r)
    (hclean : Clean r i) (hstep : P.runStep r i = some r') : LifecycleInv r' := by
  rcases runStep_cases hstep with ⟨t, rfl, -⟩ | ⟨j, e, rfl, hrule, hlog⟩
  · exact ⟨h.lifecycle, h.made, h.phase⟩
  · have hinv := lifecycleInv_rule h hclean hrule
    rwa [← hlog] at hinv

theorem lifecycleInv_start : LifecycleInv P.start where
  lifecycle := trivial
  made := fun o ho => absurd ho List.not_mem_nil
  phase := .live (by simp [start, init]) ⟨fun o ho => (Option.some_ne_none o ho.symm).elim,
    fun o ho => absurd ho List.not_mem_nil⟩

/-- **`switch` keeps its promise where factories are clean.** In every run of a
device whose factories neither raise nor switch while they replace an object,
each object is exited at most once, before its successor's start, and not
dispatched to from then on; and whenever the lock is free, the objects that
have been exited are exactly those that have been replaced. -/
theorem lifecycle_of_clean {is : List (DeviceInput I)} {r : DeviceRun F}
    (hrun : P.machine.run P.start is = some r) (hclean : P.machine.Meets Clean P.start is) :
    Lifecycle r.log ∧ (r.device.stack = [] →
      ∀ o, .start o ∈ r.log → (.exit o ∈ r.log ↔ r.device.current ≠ some o)) := by
  have h : LifecycleInv r := Machine.invariant_of_meets (fun _ _ _ => lifecycleInv_step)
    lifecycleInv_start hclean hrun
  refine ⟨h.lifecycle, fun hs o ho => ⟨fun hexit hcur => ?_, (h.phase.of_nil hs).exited o ho⟩⟩
  exact ((h.phase.of_nil hs).alive o hcur).2 hexit

end StateTable

namespace Worker

/-! ### Two runs of a worker's device -/

/-- Nothing to be found outside. -/
def nothing : Outside := ⟨⟨none, none, none, none⟩, .success, []⟩

/-- A partition whose upload succeeds, or a port whose check does. -/
def partition : Outside := ⟨⟨some "/dev/sda1", none, some "partition", none⟩, .success, []⟩

/-- The thread holding the lock goes on for a while. -/
def goesOn (n : ℕ) : List (DeviceStep Outside) := List.replicate n (.exec nothing)

/-- A new device is flashed, tested and found ready. -/
def boot : List (DeviceStep Outside) :=
  [.thread 0, .thread 0] ++ goesOn 6 ++ [.event true partition] ++ goesOn 11 ++
    [.event true partition] ++ goesOn 11

/-- The thread holding the lock goes on for a while. -/
def execs (n : ℕ) : List (DeviceInput Outside) := (goesOn n).map .step

/-- A new device becomes ready. -/
def becomesReady : List (DeviceInput Outside) := boot.map .step

/-- A ready device is reserved as `usbip`, whose constructor raises, and sees
another event. -/
def usbipReserved : List (DeviceInput Outside) :=
  becomesReady ++ [.handleReserve "usbip", .step (.thread 0)] ++ execs 3 ++
    [.step (.event true partition)]

/-- The log of a device that becomes ready. -/
def readyLog : List Effect :=
  [.start 2, .status .available, .exit 1, .dispatch .handleAdd 1, .start 1, .status .testing,
    .exit 0, .dispatch .handleAdd 0, .start 0, .status .flashingDefault]

theorem becomesReady_run :
    (states.machine.run states.start becomesReady).map
      (fun r => (r.device.stack, r.device.current, r.log)) = some ([], some 2, readyLog) := by
  decide

theorem usbipReserved_run :
    (states.machine.run states.start usbipReserved).map (fun r => (r.device.current, r.log)) =
      some (some 2, .dispatch .handleAdd 2 :: .exit 2 :: readyLog) := by
  decide

/-- A device that becomes ready has exited the states before, and only them. -/
theorem becomesReady_lifecycle :
    ∃ r, states.machine.run states.start becomesReady = some r ∧ r.log = readyLog ∧
      Lifecycle r.log ∧ (.exit 1 ∈ r.log ↔ r.device.current ≠ some 1) := by
  obtain ⟨r, hr, heq⟩ := Option.map_eq_some_iff.mp becomesReady_run
  obtain ⟨hstack, -, hlog⟩ :
      r.device.stack = [] ∧ r.device.current = some 2 ∧ r.log = readyLog := by
    simpa using heq
  obtain ⟨hlife, hexit⟩ := StateTable.lifecycle_of_clean hr (by decide)
  exact ⟨r, hr, hlog, hlife, hexit hstack 1 (hlog ▸ by decide)⟩

/-- **After a factory raises, events are dispatched to the exited object.** -/
theorem usbip_dispatches :
    ∃ r, states.machine.run states.start usbipReserved = some r ∧
      r.device.current = some 2 ∧ ¬Lifecycle r.log := by
  obtain ⟨r, hr, heq⟩ := Option.map_eq_some_iff.mp usbipReserved_run
  obtain ⟨hcur, hlog⟩ := Prod.mk.inj heq
  refine ⟨r, hr, hcur, fun h => ?_⟩
  rw [hlog] at h
  exact h.2.1 List.mem_cons_self

end Worker

end UsbipIce
