import UsbipIce.Worker.Stale

/-!
# The end of a flash

A `FlashState` that is shown a partition uploads its firmware and leaves: for the
state its `next_state_factory` makes where the upload succeeds, for a
`BrokenState` where it fails. `upload_firmware_path` may also raise
`FirmwareUploadFail`, which `handleAdd` does not catch: the exception leaves
through `Device`, and the device stays in its `FlashState`, whose timer goes on,
if it has one.

The handling of a partition is followed step by step
(`UsbipIce.StateTable.Handling`), with everything other threads may do in
between, from the upload on, until the call of `handleAdd` is over or an
exception has left it. It ends well exactly where the upload does not raise and
the rest is not disturbed (`UsbipIce.Worker.flashed_iff`): the constructor of the
next state may fail as well, and the callback of the timer may set `_switching`
first, since `start` does not hold `switching_lock`.
-/

namespace UsbipIce

open Lib

/-! ### Steps of the thread that holds the lock -/

namespace StateTable

variable {F I : Type*} {P : StateTable F I} {d : Device F} {s : List (Frame F)}

@[simp] theorem exec_code_nil {o : ℕ} (hs : d.stack = .code o [] :: s) (y : I) :
    P.exec d y = some ({ d with stack := s }, none) := by
  rw [exec, hs]

@[simp] theorem exec_command {o : ℕ} {obj : StateObject F} {c : Command F} {cs : List (Command F)}
    (hs : d.stack = .code o (c :: cs) :: s) (hobj : d.objects[o]? = some obj) (y : I) :
    P.exec d y = some (P.command d o obj cs s c) := by
  rw [exec, hs]
  show (d.objects[o]?).map _ = _
  rw [hobj]
  rfl

@[simp] theorem exec_handleExit (hs : d.stack = .handleExit :: s) (y : I) :
    P.exec d y = some ({ d with stack := s }, d.current.map .exit) := by
  rw [exec, hs]

@[simp] theorem exec_stateFactory {f : F} (hs : d.stack = .stateFactory f :: s) (y : I) :
    P.exec d y = some
      ({ d with
         objects := d.objects ++ [⟨f, false, false, none⟩]
         stack := .code d.objects.length (P.code .init f y) ::
           .install d.objects.length :: s }, none) := by
  rw [exec, hs]

/-- A method that runs belongs to an object. -/
theorem exists_object {o : ℕ} {c : Command F} {cs : List (Command F)}
    (hs : d.stack = .code o (c :: cs) :: s) {y : I} {x : Device F × Option Effect}
    (h : P.exec d y = some x) : ∃ obj, d.objects[o]? = some obj := by
  rw [exec, hs] at h
  obtain ⟨obj, hobj, -⟩ := Option.map_eq_some_iff.mp h
  exact ⟨obj, hobj⟩

theorem runStep_exec {r r' : DeviceRun F} {y : I}
    (h : P.runStep r (.step (.exec y)) = some r') :
    ∃ e, P.exec r.device y = some (r'.device, e) := by
  obtain ⟨⟨d', e⟩, hexec, rfl⟩ := Option.map_eq_some_iff.mp h
  exact ⟨e, hexec⟩

/-! ### Steps of other threads -/

/-- The callback of the object's timer sets its flag. -/
def Disturbs (o : ℕ) (r : DeviceRun F) : DeviceInput I → Prop
  | .step (.thread k) => r.device.flagOf o = false ∧ ∃ t ∈ r.device.threads[k]?, t.calls o = true
  | .step _ | .handleReserve _ | .handleUnreserve => False

theorem Disturbs.active {o : ℕ} {r : DeviceRun F} {i : DeviceInput I} (h : Disturbs o r i) :
    r.device.Active o := by
  match i with
  | .step (.thread k) =>
    obtain ⟨-, t, hk, hcalls⟩ := h
    exact Or.inr ⟨t, List.mem_of_getElem? hk, object_of_calls hcalls⟩
  | .step (.exec _) | .step (.event ..) | .step (.request _) | .step (.fire _) => exact absurd h id
  | .handleReserve _ | .handleUnreserve => exact absurd h id

theorem not_disturbs_of_flag {o : ℕ} {r : DeviceRun F} (hflag : r.device.flagOf o = true)
    (i : DeviceInput I) : ¬Disturbs o r i := by
  intro h
  match i with
  | .step (.thread k) => exact absurd (h.1.symm.trans hflag) Bool.false_ne_true
  | .step (.exec _) | .step (.event ..) | .step (.request _) | .step (.fire _) => exact h
  | .handleReserve _ | .handleUnreserve => exact h

/-- What another thread's step leaves alone. -/
structure Aside (o : ℕ) (d d' : Device F) : Prop where
  stack : d'.stack = d.stack
  current : d'.current = d.current
  length : d'.objects.length = d.objects.length
  timer : d.timerOf o = none → d'.timerOf o = none

theorem aside_set {o j : ℕ} {obj obj' : StateObject F} (hobj : d.objects[j]? = some obj)
    (htimer : obj.timer = none → obj'.timer = none) (ts : List (DeviceThread F)) :
    Aside o d { d with objects := d.objects.set j obj', threads := ts } where
  stack := rfl
  current := rfl
  length := List.length_set
  timer := fun hnone => by
    refine (timerOf_set hobj obj' o).trans ?_
    split
    · rename_i heq
      rw [heq, Device.timerOf, hobj] at hnone
      exact htimer hnone
    · exact hnone

theorem aside_threads {o : ℕ} (ts : List (DeviceThread F)) :
    Aside o d { d with threads := ts } :=
  ⟨rfl, rfl, rfl, id⟩

/-- A thread of the pool goes on while the lock is held. -/
theorem aside_of_thread {k : ℕ} {t : DeviceThread F} {x : Device F × Option Effect}
    {log : List Effect}
    (hk : d.threads[k]? = some t) (h : P.thread d k t = some x) (hs : d.stack ≠ []) (o : ℕ) :
    Aside o d x.1 ∧
      (Disturbs (I := I) o ⟨d, log⟩ (.step (.thread k)) ∧ x.1.flagOf o = true ∨
        ¬Disturbs (I := I) o ⟨d, log⟩ (.step (.thread k)) ∧ x.1.flagOf o = d.flagOf o) := by
  -- a thread that is no callback of the object's timer does not disturb it
  have hother : ¬t.calls o = true → ¬Disturbs (I := I) o ⟨d, log⟩ (.step (.thread k)) := by
    rintro hne ⟨-, t', ht', hcalls⟩
    obtain rfl := Option.some.inj (hk.symm.trans ht')
    exact hne hcalls
  match t with
  | .flashDefault =>
    obtain rfl := Option.some.inj h
    exact ⟨aside_threads _, Or.inr ⟨hother Bool.false_ne_true, rfl⟩⟩
  | .deviceSwitch f | .stateSwitch _ f =>
    rw [thread] at h
    split at h
    · cases h
    · exact absurd ‹_› hs
  | .timer j f =>
    rw [thread] at h
    split at h
    · cases h
    · obtain ⟨obj, hobj, rfl⟩ := Option.map_eq_some_iff.mp h
      have hflagOf : d.flagOf j = obj.switching := by rw [Device.flagOf, hobj]; rfl
      by_cases hflag : obj.switching = true
      · rw [if_pos hflag]
        refine ⟨aside_threads _, Or.inr ⟨?_, rfl⟩⟩
        rintro ⟨hoff, t', ht', hcalls⟩
        obtain rfl := Option.some.inj (hk.symm.trans ht')
        obtain rfl := of_decide_eq_true hcalls
        exact absurd (hoff.symm.trans (hflagOf.trans hflag)) Bool.false_ne_true
      · rw [if_neg hflag]
        have hkeeps : obj.timer = none →
            ({ obj with switching := true } : StateObject F).timer = none := id
        refine ⟨aside_set hobj hkeeps _, ?_⟩
        have hset := flagOf_set hobj { obj with switching := true } o
        by_cases ho : o = j
        · subst ho
          rw [if_pos rfl] at hset
          have hoff := hflagOf.trans (Bool.eq_false_iff.mpr hflag)
          exact Or.inl ⟨⟨hoff, .timer o f, hk, decide_eq_true rfl⟩, hset⟩
        · rw [if_neg ho] at hset
          exact Or.inr ⟨hother fun hcalls => ho (of_decide_eq_true hcalls).symm, hset⟩

/-- **While the lock is held**, another thread's step leaves the stack and the
current object alone, and sets an object's flag only where the callback of its
timer does. -/
theorem aside_of_runStep {r r' : DeviceRun F} {i : DeviceInput I} (h : P.runStep r i = some r')
    (hs : r.device.stack ≠ []) (o : ℕ) :
    (∃ y, i = .step (.exec y)) ∨ Aside o r.device r'.device ∧
      (Disturbs o r i ∧ r'.device.flagOf o = true ∨
        ¬Disturbs o r i ∧ r'.device.flagOf o = r.device.flagOf o) := by
  match i with
  | .step (.exec y) => exact Or.inl ⟨y, rfl⟩
  | .handleReserve kind =>
    obtain rfl := Option.some.inj h
    refine Or.inr ?_
    rw [handleReserve]
    split
    · exact ⟨aside_threads _, Or.inr ⟨id, rfl⟩⟩
    · exact ⟨aside_threads _, Or.inr ⟨id, rfl⟩⟩
  | .handleUnreserve =>
    obtain rfl := Option.some.inj h
    exact Or.inr ⟨aside_threads _, Or.inr ⟨id, rfl⟩⟩
  | .step (.event add y) | .step (.request y) =>
    obtain ⟨x, hstep, -⟩ := Option.map_eq_some_iff.mp h
    rw [step] at hstep
    split at hstep
    · cases hstep
    · exact absurd ‹_› hs
    · exact absurd ‹_› hs
  | .step (.fire j) =>
    obtain ⟨x, hstep, rfl⟩ := Option.map_eq_some_iff.mp h
    rw [step] at hstep
    split at hstep
    · rename_i factory switching exiting f hobj
      obtain rfl := Option.some.inj hstep
      refine Or.inr ⟨aside_set hobj (fun _ => rfl) _, Or.inr ⟨id, ?_⟩⟩
      refine (flagOf_set hobj _ o).trans ?_
      split
      · rename_i heq
        rw [heq, Device.flagOf, hobj]
        rfl
      · rfl
    · cases hstep
  | .step (.thread k) =>
    obtain ⟨x, hstep, rfl⟩ := Option.map_eq_some_iff.mp h
    obtain ⟨t, hk, ht⟩ := Option.bind_eq_some_iff.mp hstep
    exact Or.inr (aside_of_thread hk ht hs o)

/-! ### What the object asks for -/

/-- The switch the object asks for in a step, where its flag is not set yet. -/
def asks (o : ℕ) (r : DeviceRun F) : DeviceInput I → Multiset F
  | .step (.exec _) =>
    match r.device.stack with
    | .code j (.switch f :: _) :: _ => if j = o ∧ r.device.flagOf o = false then {f} else 0
    | _ => 0
  | .step (.thread k) =>
    match r.device.threads[k]? with
    | some (.timer j f) => if j = o ∧ r.device.flagOf o = false then {f} else 0
    | _ => 0
  | .step _ | .handleReserve _ | .handleUnreserve => 0

theorem asks_of_flag {o : ℕ} {r : DeviceRun F} (h : r.device.flagOf o = true) (i : DeviceInput I) :
    asks o r i = 0 := by
  rw [asks.eq_def]
  split
  · split
    · rw [if_neg (by simp [h])]
    · rfl
  · split
    · rw [if_neg (by simp [h])]
    · rfl
  · rfl
  · rfl
  · rfl

/-- Other threads ask for nothing, unless they disturb the object. -/
theorem asks_of_not_disturbs {o : ℕ} {r : DeviceRun F} {i : DeviceInput I}
    (hexec : ∀ y, i ≠ .step (.exec y)) (h : ¬Disturbs o r i) : asks o r i = 0 := by
  match i with
  | .step (.exec y) => exact absurd rfl (hexec y)
  | .step (.event ..) | .step (.request _) | .step (.fire _) => rfl
  | .handleReserve _ | .handleUnreserve => rfl
  | .step (.thread k) =>
    rw [asks.eq_def]
    show (match r.device.threads[k]? with
      | some (.timer j f) => if j = o ∧ r.device.flagOf o = false then {f} else 0
      | _ => 0) = (0 : Multiset F)
    split
    · rename_i j f hk
      refine if_neg ?_
      rintro ⟨rfl, hflag⟩
      exact h ⟨hflag, .timer j f, hk, decide_eq_true rfl⟩
    · rfl

/-! ### The handling of an event -/

/-- A call of a method is over: it has returned to the calls around it, or an
exception has left them all. -/
def Over (o : ℕ) (cs : List (Command F)) (rest : List (Frame F)) (r : DeviceRun F) : Prop :=
  r.device.stack = .code o cs :: rest ∨ r.device.stack = []

/-- **A call is followed** until it is over. -/
structure Handling (P : StateTable F I) (o : ℕ) (cs : List (Command F)) (rest : List (Frame F))
    (r : DeviceRun F) (is : List (DeviceInput I)) (r' : DeviceRun F) : Prop where
  run : P.machine.run r is = some r'
  before : P.machine.Meets (fun t _ => ¬Over o cs rest t) r is
  ended : Over o cs rest r'

section Handling

variable {o : ℕ} {cs : List (Command F)} {rest : List (Frame F)} {r r' : DeviceRun F}
  {i : DeviceInput I} {is : List (DeviceInput I)}

/-- A call that is not over goes on. -/
theorem Handling.cases (h : Handling P o cs rest r is r') (hover : ¬Over o cs rest r) :
    ∃ i js t, is = i :: js ∧ P.runStep r i = some t ∧ Handling P o cs rest t js r' := by
  obtain ⟨hrun, hbefore, hend⟩ := h
  match is with
  | [] =>
    obtain rfl := Option.some.inj hrun
    exact absurd hend hover
  | i :: js =>
    obtain ⟨t, hstep, hrest⟩ := Machine.run_cons_eq_some.mp hrun
    exact ⟨i, js, t, rfl, hstep, hrest, hbefore.2 t hstep, hend⟩

end Handling

/-! ### An object that has switched -/

/-- The object has called `switch`, and its timer waits no more. -/
structure Late (o : ℕ) (d : Device F) : Prop where
  flag : d.flagOf o = true
  timer : d.timerOf o = none

/-- The call is not one of the object, and does not install it. -/
def Off (o : ℕ) : Frame F → Prop
  | .code j _ | .install j => j ≠ o
  | .handleExit | .stateFactory _ | .unlock _ => True

theorem Late.lt {o : ℕ} (h : Late o d) : o < d.objects.length := by
  by_contra hge
  have hflag := h.flag
  rw [Device.flagOf, List.getElem?_eq_none (by omega)] at hflag
  cases hflag

theorem Late.set {o j : ℕ} {obj obj' : StateObject F} {d' : Device F} (h : Late o d)
    (hobj : d.objects[j]? = some obj) (hd' : d'.objects = d.objects.set j obj')
    (hflag : obj.switching = true → obj'.switching = true)
    (htimer : j = o → obj.timer = none → obj'.timer = none) : Late o d' where
  flag := by
    rw [Device.flagOf, hd']
    exact flagOf_set_of_flag hobj hflag h.flag
  timer := by
    rw [Device.timerOf, hd']
    refine (timerOf_set hobj obj' o).trans ?_
    split
    · rename_i heq
      have hnone := h.timer
      rw [heq, Device.timerOf, hobj] at hnone
      exact htimer heq.symm hnone
    · exact h.timer

theorem Late.make {o : ℕ} {f : F} {d' : Device F} (h : Late o d)
    (hd' : d'.objects = d.objects ++ [⟨f, false, false, none⟩]) : Late o d' where
  flag := by
    have hlt := h.lt
    have hflag := h.flag
    rw [Device.flagOf] at hflag
    rw [Device.flagOf, hd', getElem?_make, if_neg (by omega), hflag]
  timer := by
    rw [Device.timerOf, hd']
    refine (timerOf_make d f o).trans ?_
    split
    · rfl
    · exact h.timer

/-- **An object that has switched stays so**, while its own methods are not on
top. -/
theorem late_rule {o : ℕ} {i : DeviceStep I} {d' : Device F} {e : Option Effect} (h : Late o d)
    (htop : ∀ cs s, d.stack ≠ .code o cs :: s) (hrule : Rule P d i d' e) : Late o d' := by
  have hne : ∀ {j cs s}, d.stack = .code j cs :: s → j ≠ o := by
    rintro j cs s hs rfl
    exact htop cs s hs
  cases hrule with
  | pop | unlock | skip | status | raise | exit | install | idle | event | request =>
    exact ⟨h.flag, h.timer⟩
  | flashDefault | deviceSwitch | stateSwitch | timerIgnored => exact ⟨h.flag, h.timer⟩
  | mark hs hobj | cancelTimer hs hobj =>
    exact h.set hobj rfl id fun hj => absurd hj (hne hs)
  | startTimer hs hobj => exact h.set hobj rfl id fun hj => absurd hj (hne hs)
  | switch hs hobj => exact h.set hobj rfl (fun _ => rfl) fun hj => absurd hj (hne hs)
  | build => exact h.make rfl
  | fire hobj => exact h.set hobj rfl id fun _ _ => rfl
  | timerSwitch _ hobj => exact h.set hobj rfl (fun _ => rfl) fun _ => id

/-! ### A device that has left the object -/

section Leaving

variable {o : ℕ} {cs : List (Command F)} {rest : List (Frame F)}

/-- Another object is the current one, and the calls above the object's do not
bring it back. -/
structure Gone (o : ℕ) (cs : List (Command F)) (rest : List (Frame F)) (d : Device F) : Prop where
  current : d.current ≠ some o
  stack : d.stack = [] ∨ ∃ above, (∀ x ∈ above, Off o x) ∧ d.stack = above ++ .code o cs :: rest

/-- A call that is not over has others above it. -/
theorem Gone.above (h : Gone o cs rest d) (hover : ¬(d.stack = .code o cs :: rest ∨ d.stack = [])) :
    ∃ x above, Off o x ∧ (∀ y ∈ above, Off o y) ∧
      d.stack = x :: (above ++ .code o cs :: rest) := by
  obtain hs | ⟨above, hoff, hs⟩ := h.stack
  · exact absurd (Or.inr hs) hover
  · match above with
    | [] => exact absurd (Or.inl hs) hover
    | x :: above =>
      exact
        ⟨x, above, hoff x List.mem_cons_self, fun y hy => hoff y (List.mem_cons_of_mem _ hy), hs⟩

/-- **A device that has left the object does not come back to it.** -/
theorem gone_rule {i : DeviceStep I} {d' : Device F} {e : Option Effect} (h : Gone o cs rest d)
    (hlt : o < d.objects.length) (hover : ¬(d.stack = .code o cs :: rest ∨ d.stack = []))
    (hrule : Rule P d i d' e) : Gone o cs rest d' := by
  obtain ⟨x, above, hx, habove, hstack⟩ := h.above hover
  have hne : d.stack ≠ [] := fun hs => hover (Or.inr hs)
  -- what stands on top, and that it may be replaced
  have htop : ∀ {y s}, d.stack = y :: s → y = x ∧ s = above ++ .code o cs :: rest :=
    fun hs => List.cons.inj (hs.symm.trans hstack)
  have hnext : ∀ {new : List (Frame F)} {s} {d'' : Device F}, (∀ y ∈ new, Off o y) →
      s = above ++ .code o cs :: rest → d''.stack = new ++ s → d''.current ≠ some o →
        Gone o cs rest d'' := by
    rintro new s d'' hnew rfl hs hcur
    refine ⟨hcur, Or.inr ⟨new ++ above, fun y hy => ?_, by rw [hs, List.append_assoc]⟩⟩
    exact (List.mem_append.mp hy).elim (hnew y) (habove y)
  have hnil : ∀ y ∈ ([] : List (Frame F)), Off o y := fun y hy => absurd hy List.not_mem_nil
  have hcode : ∀ {j cs₀ s cs₁}, d.stack = .code j cs₀ :: s →
      ∀ y ∈ [(.code j cs₁ : Frame F)], Off o y := by
    intro j cs₀ s cs₁ hs y hy
    obtain rfl := List.mem_singleton.mp hy
    obtain ⟨rfl, -⟩ := htop hs
    exact hx
  cases hrule with
  | pop hs | unlock hs | exit hs => exact hnext hnil (htop hs).2 rfl h.current
  | skip hs | status hs | mark hs | startTimer hs | cancelTimer hs =>
    exact hnext (hcode hs) (htop hs).2 rfl h.current
  | @switch y j obj f cs₀ s hs hobj hflag =>
    have hnew : ∀ y ∈ [.handleExit, .stateFactory f, .code j cs₀], Off o y := by
      intro y hy
      simp only [List.mem_cons, List.not_mem_nil, or_false] at hy
      rcases hy with rfl | rfl | hy
      · trivial
      · trivial
      · exact hcode hs y (List.mem_singleton.mpr hy)
    exact hnext hnew (htop hs).2 rfl h.current
  | raise => exact ⟨h.current, Or.inl rfl⟩
  | @build y f s hs =>
    have hnew : ∀ y' ∈ [.code d.objects.length (P.code .init f y), .install d.objects.length],
        Off o y' := by
      intro y' hy'
      simp only [List.mem_cons, List.not_mem_nil, or_false] at hy'
      rcases hy' with rfl | rfl <;> exact (Nat.ne_of_lt hlt).symm
    exact hnext hnew (htop hs).2 rfl h.current
  | @install y j obj s hs hobj =>
    obtain ⟨rfl, hs'⟩ := htop hs
    have hnew : ∀ y' ∈ [(.code j (P.code .start obj.factory y) : Frame F)], Off o y' := by
      intro y' hy'
      obtain rfl := List.mem_singleton.mp hy'
      exact hx
    exact hnext hnew hs' rfl fun hcur => hx (Option.some.inj hcur)
  | idle | fire | flashDefault | timerIgnored | timerSwitch => exact ⟨h.current, h.stack⟩
  | event hs | request hs | deviceSwitch _ hs | stateSwitch _ hs => exact absurd hs hne

/-- No constructor of the class raises or switches. -/
def Sound (P : StateTable F I) (f : F) : Prop := ∀ y, Calm (P.code .init f y)

/-- **The calls on top install an object** before anything can raise. -/
inductive WillInstall (P : StateTable F I) (d : Device F) : List (Frame F) → Prop
  | install {n : ℕ} {s : List (Frame F)} : WillInstall P d (.install n :: s)
  | code {n : ℕ} {cs : List (Command F)} {s : List (Frame F)} (h : Calm cs) :
      WillInstall P d (.code n cs :: .install n :: s)
  | switch {n : ℕ} {f : F} {cs : List (Command F)} {s : List (Frame F)} (hf : Sound P f)
      (hflag : d.flagOf n = false) :
      WillInstall P d (.code n (.switch f :: cs) :: .install n :: s)
  | exit {f : F} {s : List (Frame F)} (hf : Sound P f) :
      WillInstall P d (.handleExit :: .stateFactory f :: s)
  | build {f : F} {s : List (Frame F)} (hf : Sound P f) : WillInstall P d (.stateFactory f :: s)

/-- The device leaves the object: it has left it, or will. -/
inductive Leaving (P : StateTable F I) (o : ℕ) (cs : List (Command F)) (rest : List (Frame F))
    (d : Device F) : Prop
  | gone (h : Gone o cs rest d)
  | installs {above : List (Frame F)} (hoff : ∀ x ∈ above, Off o x)
      (hstack : d.stack = above ++ .code o cs :: rest) (h : WillInstall P d above)

/-- A calm method goes on, or returns. -/
theorem calm_exec {n : ℕ} {cs₀ : List (Command F)} {s : List (Frame F)}
    (hs : d.stack = .code n cs₀ :: s) (hcalm : Calm cs₀) {y : I} {d' : Device F} {e : Option Effect}
    (h : P.exec d y = some (d', e)) :
    d'.current = d.current ∧ (d'.stack = s ∨ ∃ cs₁, Calm cs₁ ∧ d'.stack = .code n cs₁ :: s) := by
  match cs₀ with
  | [] =>
    rw [exec_code_nil hs] at h
    obtain ⟨rfl, -⟩ := Prod.mk.inj (Option.some.inj h)
    exact ⟨rfl, Or.inl rfl⟩
  | c :: cs₁ =>
    have hrest : Calm cs₁ := fun c' hc' => hcalm c' (List.mem_cons_of_mem _ hc')
    obtain ⟨hraise, hswitch⟩ := hcalm c List.mem_cons_self
    obtain ⟨obj, hobj⟩ := exists_object hs h
    rw [exec_command hs hobj] at h
    have hcmd := Option.some.inj h
    match c with
    | .updateDeviceStatus _ | .startTimer _ | .cancelTimer =>
      obtain ⟨rfl, -⟩ := Prod.mk.inj hcmd
      exact ⟨rfl, Or.inr ⟨cs₁, hrest, rfl⟩⟩
    | .returnIfSwitching | .returnIfExiting =>
      rw [command] at hcmd
      split at hcmd
      · obtain ⟨rfl, -⟩ := Prod.mk.inj hcmd
        exact ⟨rfl, Or.inl rfl⟩
      · obtain ⟨rfl, -⟩ := Prod.mk.inj hcmd
        exact ⟨rfl, Or.inr ⟨cs₁, hrest, rfl⟩⟩
    | .switch f => exact absurd rfl (hswitch f)
    | .raise => exact absurd rfl hraise

/-- The thread that holds the lock comes nearer to the installation. -/
theorem willInstall_exec {above : List (Frame F)} (h : WillInstall P d above)
    (hoff : ∀ x ∈ above, Off o x) (hstack : d.stack = above ++ .code o cs :: rest)
    (hlt : o < d.objects.length) {y : I} {d' : Device F} {e : Option Effect}
    (hexec : P.exec d y = some (d', e)) : Leaving P o cs rest d' := by
  cases h with
  | @install n s =>
    rw [exec, show d.stack = .install n :: (s ++ .code o cs :: rest) from hstack] at hexec
    obtain ⟨obj, -, heq⟩ := Option.map_eq_some_iff.mp hexec
    obtain ⟨rfl, -⟩ := Prod.mk.inj heq
    have hn : n ≠ o := hoff _ List.mem_cons_self
    refine .gone ⟨fun hcur => hn (Option.some.inj hcur), Or.inr ⟨.code n _ :: s, ?_, rfl⟩⟩
    rw [List.forall_mem_cons] at hoff ⊢
    exact ⟨hn, hoff.2⟩
  | @code n cs₀ s hcalm =>
    obtain ⟨-, hs | ⟨cs₁, hcalm', hs⟩⟩ := calm_exec (s := .install n :: (s ++ .code o cs :: rest))
      hstack hcalm hexec
    · exact .installs (fun x hx => hoff x (List.mem_cons_of_mem _ hx)) hs .install
    · have hoff' : ∀ x ∈ .code n cs₁ :: .install n :: s, Off o x := by
        rw [List.forall_mem_cons] at hoff ⊢
        exact hoff
      exact .installs hoff' hs (.code hcalm')
  | @switch n f cs₁ s hf hflag =>
    obtain ⟨obj, hobj⟩ := exists_object hstack hexec
    have hobjFlag : obj.switching = false := by rwa [Device.flagOf, hobj] at hflag
    rw [exec_command hstack hobj, command, if_neg (by simp [hobjFlag])] at hexec
    obtain ⟨rfl, -⟩ := Prod.mk.inj (Option.some.inj hexec)
    have hoff' :
        ∀ x ∈ .handleExit :: .stateFactory f :: .code n cs₁ :: .install n :: s, Off o x := by
      simp only [List.forall_mem_cons] at hoff ⊢
      exact ⟨trivial, trivial, hoff⟩
    exact .installs hoff' rfl (.exit hf)
  | @exit f s hf =>
    rw [exec_handleExit hstack] at hexec
    obtain ⟨rfl, -⟩ := Prod.mk.inj (Option.some.inj hexec)
    exact .installs (fun x hx => hoff x (List.mem_cons_of_mem _ hx)) rfl (.build hf)
  | @build f s hf =>
    rw [exec_stateFactory hstack] at hexec
    obtain ⟨rfl, -⟩ := Prod.mk.inj (Option.some.inj hexec)
    have hnew : d.objects.length ≠ o := (Nat.ne_of_lt hlt).symm
    have hoff' : ∀ x ∈ .code d.objects.length (P.code .init f y) :: .install d.objects.length :: s,
        Off o x := by
      simp only [List.forall_mem_cons] at hoff ⊢
      exact ⟨hnew, hnew, hoff.2⟩
    exact .installs hoff' rfl (.code (hf y))

/-- Nothing of the object is on top. -/
theorem Leaving.top (h : Leaving P o cs rest d)
    (hover : ¬(d.stack = .code o cs :: rest ∨ d.stack = [])) :
    ∃ x s, Off o x ∧ d.stack = x :: s := by
  cases h with
  | gone h =>
    obtain ⟨x, above, hx, -, hs⟩ := h.above hover
    exact ⟨x, _, hx, hs⟩
  | @installs above hoff hstack h =>
    match above with
    | [] => exact absurd (Or.inl hstack) hover
    | x :: above => exact ⟨x, _, hoff x List.mem_cons_self, hstack⟩

variable {r r' : DeviceRun F} {i : DeviceInput I}

/-- **Every step keeps a device that leaves the object leaving it.** -/
theorem leaving_step (hshape : Shape P r.device r.log) (h : Leaving P o cs rest r.device)
    (hlate : Late o r.device) (hover : ¬Over o cs rest r) (hstep : P.runStep r i = some r') :
    Leaving P o cs rest r'.device ∧ Late o r'.device := by
  obtain ⟨x, s, hx, htop⟩ := h.top hover
  have hne : r.device.stack ≠ [] := fun hs => hover (Or.inr hs)
  constructor
  · cases h with
    | gone h =>
      rcases runStep_cases hstep with ⟨ts, rfl, -⟩ | ⟨j, e, -, hrule, -⟩
      · exact .gone ⟨h.current, h.stack⟩
      · exact .gone (gone_rule h hlate.lt hover hrule)
    | @installs above hoff hstack h =>
      by_cases hexec : ∃ y, i = .step (.exec y)
      · obtain ⟨y, rfl⟩ := hexec
        obtain ⟨e, hexec⟩ := runStep_exec hstep
        exact willInstall_exec h hoff hstack hlate.lt hexec
      · have haside := fun n => (aside_of_runStep hstep hne n).resolve_left hexec
        have hstack' := (haside o).1.stack.trans hstack
        refine .installs hoff hstack' ?_
        cases h with
        | install => exact .install
        | code hcalm => exact .code hcalm
        | exit hf => exact .exit hf
        | build hf => exact .build hf
        | @switch n f cs₁ s hf hflag =>
          -- no timer of an object waits while its constructor switches
          refine .switch hf ?_
          obtain ⟨-, ⟨hdisturbs, -⟩ | ⟨-, hflag'⟩⟩ := haside n
          · have hin : .install n ∈ r.device.stack := by
              rw [hstack]
              simp
            exact absurd hdisturbs.active
              (hshape.not_active_of_install hstack (Or.inr ⟨f, rfl⟩) hin)
          · exact hflag'.trans hflag
  · rcases runStep_cases hstep with ⟨ts, rfl, -⟩ | ⟨j, e, -, hrule, -⟩
    · exact ⟨hlate.flag, hlate.timer⟩
    · refine late_rule hlate (fun cs₀ s₀ hs => ?_) hrule
      obtain ⟨rfl, -⟩ := List.cons.inj (hs.symm.trans htop)
      exact hx rfl

/-! ### What is asked of a handling -/

/-- **The object leaves as it should**: the switches it has asked for, its timer,
and the current object at the end. -/
structure Leaves (P : StateTable F I) (o : ℕ) (asked : Multiset F) (r : DeviceRun F)
    (is : List (DeviceInput I)) (r' : DeviceRun F) : Prop where
  asked : P.machine.total (asks o) r is = asked
  timer : r'.device.timerOf o = none
  current : r'.device.current ≠ some o

/-- **A step that does no harm** to the switch to `g`: the callback of the
object's timer does not set the flag, and the constructor, called while the
object is the current one, does not raise at once. -/
def Harmless (P : StateTable F I) (o : ℕ) (g : F) (cs : List (Command F)) (rest : List (Frame F))
    (r : DeviceRun F) (i : DeviceInput I) : Prop :=
  ¬Disturbs o r i ∧
    match i with
    | .step (.exec y) => r.device.current = some o →
        r.device.stack =
          .stateFactory g :: .code o cs :: rest → (P.code .init g y).head? ≠ some .raise
    | .step _ | .handleReserve _ | .handleUnreserve => True

variable {g : F} {is : List (DeviceInput I)}

/-- Another thread does harm only by its callback. -/
theorem harmless_of_not_disturbs (hexec : ¬∃ y, i = .step (.exec y)) (h : ¬Disturbs o r i) :
    Harmless P o g cs rest r i := by
  refine ⟨h, ?_⟩
  split
  · exact absurd ⟨_, rfl⟩ hexec
  · trivial
  · trivial
  · trivial

theorem leaves_cons {t : DeviceRun F} {m : Multiset F} (hstep : P.runStep r i = some t) :
    Leaves P o (asks o r i + m) r (i :: is) r' ↔ Leaves P o m t is r' := by
  have htotal : P.machine.total (asks o) r (i :: is) = asks o r i + P.machine.total (asks o) t is :=
    Machine.total_cons hstep
  refine ⟨fun h => ⟨?_, h.timer, h.current⟩, fun h => ⟨?_, h.timer, h.current⟩⟩
  · exact add_left_cancel (htotal.symm.trans h.asked)
  · rw [htotal, h.asked]

/-- Steps that ask for nothing do not count. -/
theorem leaves_cons_of_asks {t : DeviceRun F} {m : Multiset F} (hstep : P.runStep r i = some t)
    (hasks : asks o r i = 0) : Leaves P o m r (i :: is) r' ↔ Leaves P o m t is r' := by
  have hcons : Leaves P o (asks o r i + m) r (i :: is) r' ↔ Leaves P o m t is r' :=
    leaves_cons hstep
  rwa [hasks, zero_add] at hcons

/-- **A device that leaves an object has left it in the end**, and the object asks
for nothing more. -/
theorem leaves_of_leaving (ht : Tame P) (hshape : Shape P r.device r.log)
    (h : Leaving P o cs rest r.device) (hlate : Late o r.device)
    (hh : Handling P o cs rest r is r') :
    Leaves P o 0 r is r' ∧ P.machine.Meets (Harmless P o g cs rest) r is := by
  have hstep : ∀ s i t, (Shape P s.device s.log ∧ Leaving P o cs rest s.device ∧ Late o s.device) →
      ¬Over o cs rest s → P.machine.step s i = some t →
        Shape P t.device t.log ∧ Leaving P o cs rest t.device ∧ Late o t.device := by
    rintro s i t ⟨hs, hl, hlate⟩ hover hi
    exact ⟨shape_step ht hs hi, leaving_step hs hl hlate hover hi⟩
  have hstart := And.intro hshape (And.intro h hlate)
  obtain ⟨-, hend, hlateEnd⟩ := Machine.invariant_of_meets hstep hstart hh.before hh.run
  refine ⟨⟨?_, hlateEnd.timer, ?_⟩, ?_⟩
  · refine (Machine.total_eq_zero_iff hh.run).mpr ?_
    exact Machine.meets_of_meets hstep (fun s i hs _ => asks_of_flag hs.2.2.flag i) hstart hh.before
  · cases hend with
    | gone hgone => exact hgone.current
    | @installs above hoff hstack hw =>
      -- a call that is over has nothing above it
      rcases hh.ended with hs | hs
      · have happend :
            above ++ .code o cs :: rest = [] ++ .code o cs :: rest := hstack.symm.trans hs
        obtain rfl := List.append_cancel_right happend
        cases hw
      · exact absurd (hstack.symm.trans hs) (by simp)
  · refine Machine.meets_of_meets hstep (fun s i hs _ => ⟨not_disturbs_of_flag hs.2.2.flag i, ?_⟩)
      hstart hh.before
    match i with
    | .step (.exec y) =>
      intro hcur hstack
      cases hs.2.1 with
      | gone hgone => exact absurd hcur hgone.current
      | @installs above hoff hstack' hw =>
        have happend : above ++ .code o cs :: rest = [.stateFactory g] ++ .code o cs :: rest :=
          hstack'.symm.trans hstack
        obtain rfl := List.append_cancel_right happend
        cases hw with
        | build hf =>
          intro hraise
          obtain ⟨l, hl⟩ := List.head?_eq_some_iff.mp hraise
          exact (hf y .raise (hl ▸ List.mem_cons_self)).1 rfl
    | .step (.event ..) | .step (.request _) | .step (.fire _) | .step (.thread _) => trivial
    | .handleReserve _ | .handleUnreserve => trivial

/-! ### An object that is stuck -/

/-- The device stays where it is: something is about to raise, or the object asks
for a switch again. -/
inductive Stuck (o : ℕ) (g : F) (cs : List (Command F)) (rest : List (Frame F)) (d : Device F) :
    Prop
  | raises {j : ℕ} {cs₀ : List (Command F)} {s : List (Frame F)}
      (hs : d.stack = .code j (.raise :: cs₀) :: s)
  | cancels (hflag : d.flagOf o = true)
      (hs : d.stack = .code o (.cancelTimer :: .switch g :: cs) :: rest)
  | ignored (hflag : d.flagOf o = true) (hs : d.stack = .code o (.switch g :: cs) :: rest)

theorem flagOf_of_getElem? {obj : StateObject F} (hobj : d.objects[o]? = some obj) :
    d.flagOf o = obj.switching := by
  rw [Device.flagOf, hobj, Option.any_some]

/-- The thread that holds the lock changes nothing about it. -/
theorem stuck_exec (h : Stuck o g cs rest d) {y : I} {d' : Device F} {e : Option Effect}
    (hexec : P.exec d y = some (d', e)) :
    (Stuck o g cs rest d' ∨ d'.stack = .code o cs :: rest ∨ d'.stack = []) ∧
      d'.current = d.current := by
  cases h with
  | raises hs =>
    obtain ⟨obj, hobj⟩ := exists_object hs hexec
    rw [exec_command hs hobj] at hexec
    obtain ⟨rfl, -⟩ := Prod.mk.inj (Option.some.inj hexec)
    exact ⟨Or.inr (Or.inr rfl), rfl⟩
  | cancels hflag hs =>
    obtain ⟨obj, hobj⟩ := exists_object hs hexec
    rw [exec_command hs hobj] at hexec
    obtain ⟨rfl, -⟩ := Prod.mk.inj (Option.some.inj hexec)
    have hkeep : obj.switching = true →
        ({ obj with timer := none } : StateObject F).switching = true := id
    exact ⟨Or.inl (.ignored (flagOf_set_of_flag hobj hkeep hflag) rfl), rfl⟩
  | ignored hflag hs =>
    obtain ⟨obj, hobj⟩ := exists_object hs hexec
    rw [exec_command hs hobj, command, if_pos ((flagOf_of_getElem? hobj).symm.trans hflag)] at hexec
    obtain ⟨rfl, -⟩ := Prod.mk.inj (Option.some.inj hexec)
    exact ⟨Or.inr (Or.inl rfl), rfl⟩

/-- **A device that is stuck** with an object keeps it. -/
theorem current_of_stuck (h : Stuck o g cs rest r.device) (hcur : r.device.current = some o)
    (hh : Handling P o cs rest r is r') : r'.device.current = some o := by
  have hstep : ∀ s i t, ((Stuck o g cs rest s.device ∨ Over o cs rest s) ∧
      s.device.current = some o) → ¬Over o cs rest s → P.machine.step s i = some t →
        (Stuck o g cs rest t.device ∨ Over o cs rest t) ∧ t.device.current = some o := by
    rintro s i t ⟨hs, hcur⟩ hover hi
    have hstuck := hs.resolve_right hover
    by_cases hexec : ∃ y, i = .step (.exec y)
    · obtain ⟨y, rfl⟩ := hexec
      obtain ⟨e, hexec⟩ := runStep_exec hi
      obtain ⟨hnext, hcur'⟩ := stuck_exec hstuck hexec
      exact ⟨hnext, hcur'.trans hcur⟩
    · obtain ⟨haside, hflag⟩ :=
        (aside_of_runStep hi (fun hnil => hover (Or.inr hnil)) o).resolve_left hexec
      have hkeeps : s.device.flagOf o = true → t.device.flagOf o = true := fun hon =>
        hflag.elim And.right fun hoff => hoff.2.trans hon
      refine ⟨Or.inl ?_, haside.current.trans hcur⟩
      cases hstuck with
      | raises hs => exact .raises (haside.stack.trans hs)
      | cancels hon hs => exact .cancels (hkeeps hon) (haside.stack.trans hs)
      | ignored hon hs => exact .ignored (hkeeps hon) (haside.stack.trans hs)
  exact (Machine.invariant_of_meets hstep ⟨Or.inl h, hcur⟩ hh.before hh.run).2

/-! ### The switch -/

/-- The constructors of the class raise at once, or the object they make is
installed. -/
def Decided (P : StateTable F I) (g : F) : Prop :=
  ∀ y, (P.code .init g y).head? ≠ some .raise → Calm (P.code .init g y) ∨
    ∃ f cs, P.code .init g y = .switch f :: cs ∧ Sound P f

/-- The object has called `Device.switch`, which exits it and calls the factory. -/
structure Entering (o : ℕ) (g : F) (cs : List (Command F)) (rest : List (Frame F))
    (d : Device F) : Prop where
  late : Late o d
  current : d.current = some o
  stack : d.stack = .handleExit :: .stateFactory g :: .code o cs :: rest ∨
    d.stack = .stateFactory g :: .code o cs :: rest

theorem Entering.not_over (h : Entering o g cs rest r.device) : ¬Over o cs rest r := by
  have hlen : r.device.stack.length > (.code o cs :: rest).length := by
    rcases h.stack with hs | hs <;> rw [hs] <;> simp
  rintro (hs | hs) <;> rw [hs] at hlen
  · exact lt_irrefl _ hlen
  · exact absurd hlen (by simp)

/-- **The factory is called**: the device leaves the object, or its constructor
raises. -/
theorem entering_build (hg : Decided P g) (h : Late o d) (hcur : d.current = some o)
    (hs : d.stack = .stateFactory g :: .code o cs :: rest) {y : I} {d' : Device F}
    {e : Option Effect} (hexec : P.exec d y = some (d', e)) :
    d'.current = some o ∧ Late o d' ∧
      (Leaving P o cs rest d' ∧ (P.code .init g y).head? ≠ some .raise ∨
        Stuck o g cs rest d' ∧ (P.code .init g y).head? = some .raise) := by
  rw [exec_stateFactory hs] at hexec
  obtain ⟨rfl, -⟩ := Prod.mk.inj (Option.some.inj hexec)
  refine ⟨hcur, h.make rfl, ?_⟩
  by_cases hraise : (P.code .init g y).head? = some .raise
  · obtain ⟨l, hl⟩ := List.head?_eq_some_iff.mp hraise
    have hstack : (.code d.objects.length (P.code .init g y) :: .install d.objects.length ::
        .code o cs :: rest : List (Frame F)) = .code d.objects.length (.raise :: l) ::
          .install d.objects.length :: .code o cs :: rest := by rw [hl]
    exact Or.inr ⟨.raises hstack, hraise⟩
  · refine Or.inl ⟨?_, hraise⟩
    have hnew : d.objects.length ≠ o := (Nat.ne_of_lt h.lt).symm
    have hoff : ∀ x ∈ [.code d.objects.length (P.code .init g y), .install d.objects.length],
        Off o x := by
      simp only [List.forall_mem_cons]
      exact ⟨hnew, hnew, fun x hx => absurd hx List.not_mem_nil⟩
    refine .installs hoff rfl ?_
    obtain hcalm | ⟨f, cs₁, hcode, hf⟩ := hg y hraise
    · exact .code hcalm
    · rw [hcode]
      refine .switch hf ?_
      rw [Device.flagOf, List.getElem?_concat_length]
      rfl

/-- **A switch that was entered** leaves the object exactly where no step does
harm. -/
theorem leaves_iff_of_entering (ht : Tame P) (hg : Decided P g) (hshape : Shape P r.device r.log)
    (h : Entering o g cs rest r.device) (hh : Handling P o cs rest r is r') :
    Leaves P o 0 r is r' ↔ P.machine.Meets (Harmless P o g cs rest) r is := by
  induction is generalizing r with
  | nil =>
    obtain ⟨i, js, t, hnil, -⟩ := hh.cases h.not_over
    cases hnil
  | cons i is ih =>
    obtain ⟨i', js, t, heq, hstep, hrest⟩ := hh.cases h.not_over
    obtain ⟨rfl, rfl⟩ := List.cons.inj heq
    have hshape' := shape_step ht hshape hstep
    rw [leaves_cons_of_asks hstep (asks_of_flag h.late.flag _), Machine.meets_cons hstep]
    have hquiet := not_disturbs_of_flag h.late.flag i
    by_cases hexec : ∃ y, i = .step (.exec y)
    · obtain ⟨y, rfl⟩ := hexec
      obtain ⟨e, hexec⟩ := runStep_exec hstep
      rcases h.stack with hs | hs
      · rw [exec_handleExit hs] at hexec
        obtain ⟨hd', -⟩ := Prod.mk.inj (Option.some.inj hexec)
        have hnext : Entering o g cs rest t.device :=
          hd' ▸ ⟨⟨h.late.flag, h.late.timer⟩, h.current, Or.inr rfl⟩
        have hharmless : Harmless P o g cs rest r (.step (.exec y)) := by
          refine ⟨hquiet, fun _ hs' => ?_⟩
          cases hs.symm.trans hs'
        rw [ih hshape' hnext hrest]
        exact (and_iff_right hharmless).symm
      · obtain ⟨hcur', hlate', ⟨hleaving, hcalm⟩ | ⟨hstuck, hraise⟩⟩ :=
          entering_build hg h.late h.current hs hexec
        · obtain ⟨hleaves, hmeets⟩ := leaves_of_leaving (g := g) ht hshape' hleaving hlate' hrest
          exact iff_of_true hleaves ⟨⟨hquiet, fun _ _ => hcalm⟩, hmeets⟩
        · refine iff_of_false (fun hleaves => hleaves.current ?_) fun hmeets => ?_
          · exact current_of_stuck hstuck hcur' hrest
          · exact hmeets.1.2 h.current hs hraise
    · have hflag :=
        (aside_of_runStep hstep (fun hnil => h.not_over (Or.inr hnil)) o).resolve_left hexec
      obtain ⟨haside, hflag⟩ := hflag
      have hon : t.device.flagOf o = true := by
        rcases hflag with ⟨-, hon⟩ | ⟨-, hsame⟩
        · exact hon
        · exact hsame.trans h.late.flag
      have hnext : Entering o g cs rest t.device :=
        ⟨⟨hon, haside.timer h.late.timer⟩, haside.current.trans h.current,
          haside.stack.symm ▸ h.stack⟩
      rw [ih hshape' hnext hrest]
      exact (and_iff_right (harmless_of_not_disturbs hexec hquiet)).symm

/-- The object is about to cancel its timer and switch. -/
structure Early (o : ℕ) (g : F) (cs : List (Command F)) (rest : List (Frame F))
    (d : Device F) : Prop where
  flag : d.flagOf o = false
  current : d.current = some o
  stack : d.stack = .code o (.cancelTimer :: .switch g :: cs) :: rest ∨
    d.timerOf o = none ∧ d.stack = .code o (.switch g :: cs) :: rest

theorem Early.not_over (h : Early o g cs rest r.device) : ¬Over o cs rest r := by
  obtain ⟨c, cs₀, hs⟩ : ∃ c cs₀, r.device.stack = .code o (c :: cs₀ ++ cs) :: rest := by
    rcases h.stack with hs | ⟨-, hs⟩
    · exact ⟨_, [_], hs⟩
    · exact ⟨_, [], hs⟩
  rintro (hover | hover)
  · have hcs := (Frame.code.inj (List.cons.inj (hs.symm.trans hover)).1).2
    have hlen := congrArg List.length hcs
    simp only [List.length_append, List.length_cons] at hlen
    omega
  · exact absurd (hs.symm.trans hover) (by simp)

/-- **The thread that holds the lock** cancels the timer, and switches. -/
theorem early_exec (h : Early o g cs rest r.device) {y : I} {d' : Device F} {e : Option Effect}
    (hexec : P.exec r.device y = some (d', e)) :
    Early o g cs rest d' ∧ asks o r (.step (.exec y) : DeviceInput I) = 0 ∨
      Entering o g cs rest d' ∧ asks o r (.step (.exec y) : DeviceInput I) = {g} := by
  rcases h.stack with hs | ⟨htimer, hs⟩
  · obtain ⟨obj, hobj⟩ := exists_object hs hexec
    rw [exec_command hs hobj] at hexec
    obtain ⟨rfl, -⟩ := Prod.mk.inj (Option.some.inj hexec)
    have hoff := (flagOf_of_getElem? hobj).symm.trans h.flag
    refine Or.inl ⟨⟨?_, h.current, Or.inr ⟨?_, rfl⟩⟩, ?_⟩
    · exact (flagOf_set hobj { obj with timer := none } o).trans ((if_pos rfl).trans hoff)
    · exact (timerOf_set hobj { obj with timer := none } o).trans (if_pos rfl)
    · rw [asks.eq_def]
      simp only [hs]
  · obtain ⟨obj, hobj⟩ := exists_object hs hexec
    have hoff := (flagOf_of_getElem? hobj).symm.trans h.flag
    rw [exec_command hs hobj, command, if_neg (by simp [hoff])] at hexec
    obtain ⟨rfl, -⟩ := Prod.mk.inj (Option.some.inj hexec)
    have htimer' : obj.timer = none := by rwa [Device.timerOf, hobj] at htimer
    refine Or.inr ⟨⟨⟨?_, ?_⟩, h.current, Or.inl rfl⟩, ?_⟩
    · exact (flagOf_set hobj { obj with switching := true } o).trans (if_pos rfl)
    · exact (timerOf_set hobj { obj with switching := true } o).trans ((if_pos rfl).trans htimer')
    · rw [asks.eq_def]
      simp only [hs, h.flag, and_self, if_true]

/-- **An object that cancels its timer and switches** leaves as it should exactly
where no step does harm. -/
theorem leaves_iff_of_early (ht : Tame P) (hg : Decided P g) (hshape : Shape P r.device r.log)
    (h : Early o g cs rest r.device) (hh : Handling P o cs rest r is r') :
    Leaves P o {g} r is r' ↔ P.machine.Meets (Harmless P o g cs rest) r is := by
  induction is generalizing r with
  | nil =>
    obtain ⟨i, js, t, hnil, -⟩ := hh.cases h.not_over
    cases hnil
  | cons i is ih =>
    obtain ⟨i', js, t, heq, hstep, hrest⟩ := hh.cases h.not_over
    obtain ⟨rfl, rfl⟩ := List.cons.inj heq
    have hshape' := shape_step ht hshape hstep
    rw [Machine.meets_cons hstep]
    by_cases hexec : ∃ y, i = .step (.exec y)
    · obtain ⟨y, rfl⟩ := hexec
      have hharmless : Harmless P o g cs rest r (.step (.exec y)) := by
        refine ⟨id, fun _ hs' => ?_⟩
        rcases h.stack with hs | ⟨-, hs⟩ <;> cases hs.symm.trans hs'
      obtain ⟨e, hexec⟩ := runStep_exec hstep
      rw [and_iff_right hharmless]
      obtain ⟨hnext, hasks⟩ | ⟨hnext, hasks⟩ := early_exec h hexec
      · rw [leaves_cons_of_asks hstep hasks, ih hshape' hnext hrest]
      · have hcons : Leaves P o (asks o r (.step (.exec y)) + 0) r (.step (.exec y) :: is) r' ↔
            Leaves P o 0 t is r' := leaves_cons hstep
        rw [hasks, add_zero] at hcons
        rw [hcons, leaves_iff_of_entering ht hg hshape' hnext hrest]
    · obtain ⟨haside, hflag⟩ :=
        (aside_of_runStep hstep (fun hnil => h.not_over (Or.inr hnil)) o).resolve_left hexec
      rcases hflag with ⟨hdisturbs, hon⟩ | ⟨hquiet, hsame⟩
      · have hstuck : Stuck o g cs rest t.device := by
          rcases h.stack with hs | ⟨-, hs⟩
          · exact .cancels hon (haside.stack.trans hs)
          · exact .ignored hon (haside.stack.trans hs)
        refine iff_of_false (fun hleaves => hleaves.current ?_) fun hmeets => hmeets.1.1 hdisturbs
        exact current_of_stuck hstuck (haside.current.trans h.current) hrest
      · have hnext : Early o g cs rest t.device := by
          refine ⟨hsame.trans h.flag, haside.current.trans h.current, ?_⟩
          rw [haside.stack]
          exact h.stack.imp_right (And.imp_left haside.timer)
        have hasks := asks_of_not_disturbs (fun y hy => hexec ⟨y, hy⟩) hquiet
        rw [leaves_cons_of_asks hstep hasks, ih hshape' hnext hrest]
        exact (and_iff_right (harmless_of_not_disturbs hexec hquiet)).symm

end Leaving

end StateTable

namespace Worker

open StateTable

/-! ### The classes of a worker -/

theorem sound_broken : states.Sound .broken := by
  intro y c hc
  obtain rfl : c = .updateDeviceStatus .broken := by simpa [states, code] using hc
  exact ⟨by simp, by simp⟩

/-- **Every class is decided**: a constructor that does not raise at once makes an
object, or, without a port, switches to `BrokenState`. -/
theorem decided (g : StateFactory) : states.Decided g := by
  intro y hraise
  match g with
  | .flash firmware next timeout =>
    refine Or.inl fun c hc => ?_
    simp only [states, code] at hc
    split at hc
    · obtain rfl := List.mem_singleton.mp hc
      exact ⟨by simp, by simp⟩
    · exact absurd hc List.not_mem_nil
  | .test | .ready | .broken | .pulseCountFlasher =>
    exact Or.inl (by simp [StateTable.Calm, states, code])
  | .usbip => exact absurd rfl hraise
  | .pulseCount =>
    simp only [states, code, pulseCountInit] at hraise ⊢
    split at hraise
    · rename_i hport
      rw [if_pos hport]
      split at hraise
      · exact Or.inl fun c hc => absurd hc List.not_mem_nil
      · exact absurd rfl hraise
      · exact absurd rfl hraise
    · rename_i hport
      rw [if_neg hport]
      exact Or.inr ⟨.broken, [.raise], rfl, sound_broken⟩

/-! ### The handling of a partition -/

/-- The file is one `FlashState.handleAdd` uploads to. -/
structure IsPartition (dev : DevFile) : Prop where
  named : dev.unnamed = false
  subsystem : dev.subsystem ≠ some "tty"
  devtype : dev.devtype = some "partition"

/-- The factory a flash is to switch to. -/
def flashTarget (next : StateFactory) : Answer → StateFactory
  | .success => next
  | .failure | .raises => .broken

theorem flashHandleAdd_raises {dev : DevFile} (h : IsPartition dev) (next : StateFactory) :
    flashHandleAdd next dev .raises = [.raise] := by
  rw [flashHandleAdd.eq_def, if_neg (by simp [h.named]), if_neg h.subsystem, if_pos h.devtype]

/-- Where the upload does not raise, the object cancels its timer and switches. -/
theorem flashHandleAdd_returns {dev : DevFile} (h : IsPartition dev) (next : StateFactory)
    {uploaded : Answer} (hreturns : uploaded ≠ .raises) :
    flashHandleAdd next dev uploaded = [.cancelTimer, .switch (flashTarget next uploaded)] := by
  rw [flashHandleAdd.eq_def, if_neg (by simp [h.named]), if_neg h.subsystem, if_pos h.devtype]
  cases uploaded with
  | success => rfl
  | failure => rfl
  | raises => exact absurd rfl hreturns

/-- **A partition has been uploaded to**: object `o`, the current one, is a
`FlashState` that has not switched, in its `handleAdd`. -/
structure Uploads (r : DeviceRun StateFactory) (o : ℕ) (next : StateFactory)
    (file : DevFile × Answer) (cs : List (Command StateFactory))
    (rest : List (Frame StateFactory)) : Prop where
  reached : states.machine.Reaches states.start r
  factory : ∃ firmware timeout, r.device.factoryOf o = some (.flash firmware next timeout)
  flag : r.device.flagOf o = false
  current : r.device.current = some o
  partition : IsPartition file.1
  stack : r.device.stack = .code o (flashHandleAdd next file.1 file.2 ++ cs) :: rest

section Uploads

variable {r r' : DeviceRun StateFactory} {o : ℕ} {next : StateFactory} {file : DevFile × Answer}
  {cs : List (Command StateFactory)} {rest : List (Frame StateFactory)}

/-- An `add` event begins an upload. -/
theorem uploads_of_event (hreached : states.machine.Reaches states.start r)
    (hfactory : ∃ firmware timeout, r.device.factoryOf o = some (.flash firmware next timeout))
    (hflag : r.device.flagOf o = false) (hcur : r.device.current = some o)
    (hs : r.device.stack = [])
    {x : Outside} (hx : IsPartition x.dev) :
    ∃ r', states.runStep r (.step (.event true x)) = some r' ∧
      Uploads r' o next (x.dev, x.answer) [] [.unlock o] := by
  obtain ⟨firmware, timeout, hfac⟩ := hfactory
  obtain ⟨⟨os, c, s, ts⟩, log⟩ := r
  obtain ⟨obj, hobj, hobjFac⟩ := Option.map_eq_some_iff.mp hfac
  obtain ⟨rfl, rfl⟩ : c = some o ∧ s = [] := ⟨hcur, hs⟩
  have hstep : states.runStep ⟨⟨os, some o, [], ts⟩, log⟩ (.step (.event true x)) = some
      ⟨⟨os, some o, [.code o (states.code .handleAdd obj.factory x), .unlock o], ts⟩,
        .dispatch .handleAdd o :: log⟩ := by
    show Option.map _ ((os[o]?).map _) = _
    rw [show os[o]? = some obj from hobj]
    rfl
  refine ⟨_, hstep, hreached.tail (i := .step (.event true x)) hstep, ⟨firmware, timeout, hfac⟩,
    hflag, rfl, hx, ?_⟩
  rw [hobjFac, List.append_nil]
  rfl

/-- So does a file that `start` finds, while the object has not switched. -/
theorem uploads_of_file {files : List (DevFile × Answer)}
    (hreached : states.machine.Reaches states.start r)
    (hfactory : ∃ firmware timeout, r.device.factoryOf o = some (.flash firmware next timeout))
    (hflag : r.device.flagOf o = false) (hcur : r.device.current = some o)
    (hs : r.device.stack = .code o (flashStart next (file :: files)) :: rest)
    (hfile : IsPartition file.1) (y : Outside) :
    ∃ r', states.runStep r (.step (.exec y)) = some r' ∧
      Uploads r' o next file (flashStart next files) rest := by
  obtain ⟨firmware, timeout, hfac⟩ := hfactory
  obtain ⟨obj, hobj, -⟩ := Option.map_eq_some_iff.mp hfac
  have hoff := (flagOf_of_getElem? hobj).symm.trans hflag
  have hcode : flashStart next (file :: files) =
      .returnIfSwitching :: (flashHandleAdd next file.1 file.2 ++ flashStart next files) := rfl
  have hexec := exec_command (P := states) (hs.trans (by rw [hcode])) hobj y
  rw [command, if_neg (by simp [hoff])] at hexec
  have hstep := congrArg (Option.map fun x => (⟨x.1, x.2.toList ++ r.log⟩ : DeviceRun StateFactory))
    hexec
  exact ⟨_, hstep, hreached.tail (i := .step (.exec y)) hstep, ⟨firmware, timeout, hfac⟩,
    hflag, hcur, hfile, rfl⟩

theorem shape_of_reaches (h : states.machine.Reaches states.start r) :
    Shape states r.device r.log :=
  h.invariant (I := fun r => Shape states r.device r.log)
    (fun _ _ _ hs hi => shape_step tame_states hs hi) shape_start

/-- **When a flash ends well.** A `FlashState` that has been shown a partition
asks for one switch, the right one, has no timer left, and is left by the
device, if and only if the upload does not raise, no callback of its timer sets
the flag first, and the constructor of the next state does not raise at once. -/
theorem flashed_iff (h : Uploads r o next file cs rest) {is : List (DeviceInput Outside)}
    (hh : states.Handling o cs rest r is r') :
    states.Leaves o {flashTarget next file.2} r is r' ↔ file.2 ≠ .raises ∧
      states.machine.Meets (states.Harmless o (flashTarget next file.2) cs rest) r is := by
  by_cases hraises : file.2 = .raises
  · have hstack := h.stack
    rw [hraises, flashHandleAdd_raises h.partition] at hstack
    refine iff_of_false (fun hleaves => hleaves.current ?_) fun hcond => hcond.1 hraises
    have hstuck : Stuck o next cs rest r.device := .raises hstack
    exact current_of_stuck hstuck h.current hh
  · have hstack := h.stack
    rw [flashHandleAdd_returns h.partition next hraises] at hstack
    rw [and_iff_right hraises]
    exact leaves_iff_of_early tame_states (decided _) (shape_of_reaches h.reached)
      ⟨h.flag, h.current, Or.inl hstack⟩ hh

end Uploads

/-! ### Two uploads -/

instance (o : ℕ) (cs : List (Command StateFactory)) (rest : List (Frame StateFactory))
    (r : DeviceRun StateFactory) :
    Decidable (Over o cs rest r) := inferInstanceAs (Decidable (_ ∨ _))

/-- A new device has uploaded to its partition, with the given outcome. -/
def defaultUploaded (uploaded : Answer) : DeviceRun StateFactory :=
  ⟨⟨[⟨flashDefault, false, false, some .broken⟩], some 0,
    [.code 0 (flashHandleAdd .test partition.dev uploaded ++ []), .unlock 0], []⟩,
    [.dispatch .handleAdd 0, .start 0, .status .flashingDefault]⟩

/-- The same device, once its `TestState` has been started. -/
def defaultFlashed : DeviceRun StateFactory :=
  ⟨⟨[⟨flashDefault, true, false, none⟩, ⟨.test, false, false, some .broken⟩], some 1,
    [.code 0 [], .unlock 0], []⟩,
    [.start 1, .status .testing, .exit 0, .dispatch .handleAdd 0, .start 0,
      .status .flashingDefault]⟩

theorem uploads_default (uploaded : Answer) :
    Uploads (defaultUploaded uploaded) 0 .test (partition.dev, uploaded) [] [.unlock 0] where
  reached := by
    refine ⟨[.step (.thread 0), .step (.thread 0)] ++ execs 6 ++
      [.step (.event true { partition with answer := uploaded })], ?_⟩
    cases uploaded <;> rfl
  factory := ⟨.defaultFirmware, some 60, rfl⟩
  flag := rfl
  current := rfl
  partition := ⟨rfl, (by decide : partition.dev.subsystem ≠ some "tty"), rfl⟩
  stack := rfl

/-- A `TestState` can always be made. -/
theorem harmless_execs (o n : ℕ) (cs : List (Command StateFactory))
    (rest : List (Frame StateFactory))
    (r : DeviceRun StateFactory) :
    states.machine.Meets (states.Harmless o .test cs rest) r (execs n) := by
  induction n generalizing r with
  | zero => trivial
  | succ n ih =>
    refine ⟨⟨id, fun _ _ hraise => ?_⟩, fun t _ => ih t⟩
    cases hraise

/-- The upload succeeds, and the device is tested. -/
theorem defaultFlashed_leaves :
    flashTarget .test .success = .test ∧
      states.Leaves 0 {.test} (defaultUploaded .success) (execs 9) defaultFlashed := by
  have hh : states.Handling 0 [] [.unlock 0] (defaultUploaded .success) (execs 9) defaultFlashed :=
    ⟨rfl, by decide, Or.inl rfl⟩
  refine ⟨rfl, (flashed_iff (uploads_default .success) hh).mpr ⟨by simp, ?_⟩⟩
  exact harmless_execs 0 9 [] [.unlock 0] (defaultUploaded .success)

/-- The upload raises, and the device is left in its `FlashState`. -/
theorem raised_stays :
    ∃ r', Uploads (defaultUploaded .raises) 0 .test (partition.dev, .raises) [] [.unlock 0] ∧
      states.Handling 0 [] [.unlock 0] (defaultUploaded .raises) (execs 1) r' ∧
      ¬states.Leaves 0 {flashTarget .test .raises} (defaultUploaded .raises) (execs 1) r' := by
  refine ⟨{ defaultUploaded .raises with
    device := { (defaultUploaded .raises).device with stack := [] } }, uploads_default .raises,
    ⟨rfl, by decide, Or.inr rfl⟩, fun hleaves => hleaves.current rfl⟩

end Worker

end UsbipIce
