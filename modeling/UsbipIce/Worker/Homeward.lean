import UsbipIce.Worker.Stale
import UsbipIce.Worker.Supply

/-!
# The way home of a device

The classes of the default cycle are the default `FlashState`, `TestState`,
`ReadyState` and `BrokenState` (`UsbipIce.Worker.Home`). An object of them only
switches to another one, so a device whose current object and whose running
calls belong to the cycle stays in it (`UsbipIce.Worker.AtHome`), until the
device itself is told to switch elsewhere.

A device is *homeward* when it is there, or in the outermost call of a switch
to the cycle, or when a thread that is about to make such a call waits for the
lock. No step inside a device that has no other switch waiting ends this
(`UsbipIce.Worker.homeward_rule`).

The second half is about the announcement. `ReadyState.__init__` writes the
status `available` before the object is installed; as long as the status stands,
and nothing else has an announcement to come, the device is on its way to a
current `ReadyState`, has it, or is about to write `broken`
(`UsbipIce.Worker.announced_rule`).
-/

namespace UsbipIce.Worker

open Lib StateTable

/-! ### The default cycle -/

/-- The classes of the default cycle. -/
def Home (f : StateFactory) : Prop := f = flashDefault ∨ f = .test ∨ f = .ready ∨ f = .broken

instance (f : StateFactory) : Decidable (Home f) := inferInstanceAs (Decidable (_ ∨ _))

/-- **The cycle leads to itself.** -/
theorem home_of_switch {m : Method} {f g : StateFactory} {x : Outside} (hf : Home f)
    (hg : .switch g ∈ code m f x) : Home g := by
  obtain ⟨-, firmware, next, timeout, heq, rfl | rfl⟩ | ⟨-, -, rfl⟩ | ⟨-, rfl, -⟩ | ⟨-, -, rfl⟩ :=
    mayDo_of_mem_code hg
  · rcases hf with rfl | rfl | rfl | rfl
    · obtain ⟨-, rfl, -⟩ := StateFactory.flash.inj heq
      exact Or.inr (Or.inl rfl)
    all_goals cases heq
  · exact Or.inr (Or.inr (Or.inr rfl))
  · exact Or.inr (Or.inr (Or.inl rfl))
  · rcases hf with hf | hf | hf | hf <;> cases hf
  · exact Or.inr (Or.inr (Or.inr rfl))

/-- Its constructors neither raise nor switch. -/
theorem calm_of_home {f : StateFactory} {x : Outside} (hf : Home f) : Calm (code .init f x) := by
  rcases hf with rfl | rfl | rfl | rfl <;> simp [Calm, code, flashDefault]

/-- An object of the cycle. -/
def HomeObject (d : Device StateFactory) (o : ℕ) : Prop := ∃ f, d.factoryOf o = some f ∧ Home f

/-- A call that belongs to the cycle. -/
def HomeFrame (d : Device StateFactory) : Frame StateFactory → Prop
  | .code o _ | .install o => HomeObject d o
  | .stateFactory f => Home f
  | .handleExit | .unlock _ => True

/-! ### Devices on their way home -/

/-- **A device at home.** -/
structure AtHome (d : Device StateFactory) : Prop where
  current : ∃ o, d.current = some o ∧ HomeObject d o
  stack : ∀ x ∈ d.stack, HomeFrame d x

/-- The lock is held for the outermost call of a switch to the cycle. -/
inductive Returning (d : Device StateFactory) : Prop
  | exiting {f : StateFactory} (hs : d.stack = [.handleExit, .stateFactory f]) (hf : Home f)
  | building {f : StateFactory} (hs : d.stack = [.stateFactory f]) (hf : Home f)
  | initializing {o : ℕ} {cs : List (Command StateFactory)}
      (hs : d.stack = [.code o cs, .install o])
      (hcs : Calm cs) (ho : HomeObject d o)
  | installing {o : ℕ} (hs : d.stack = [.install o]) (ho : HomeObject d o)

/-- The thread is about to flash the default firmware. -/
def ReturnsHome (t : DeviceThread StateFactory) : Prop :=
  t = .flashDefault ∨ t = .deviceSwitch flashDefault

/-- **A device that comes home** if it is let. -/
def Homeward (d : Device StateFactory) : Prop :=
  (∃ t ∈ d.threads, ReturnsHome t) ∨ Returning d ∨ AtHome d

variable {d d' : Device StateFactory}

theorem HomeObject.mono (hfac : ∀ o f, d.factoryOf o = some f → d'.factoryOf o = some f) {o : ℕ}
    (h : HomeObject d o) : HomeObject d' o := by
  obtain ⟨f, hf, hhome⟩ := h
  exact ⟨f, hfac o f hf, hhome⟩

theorem HomeFrame.mono (hfac : ∀ o f, d.factoryOf o = some f → d'.factoryOf o = some f)
    {x : Frame StateFactory} (h : HomeFrame d x) : HomeFrame d' x := by
  match x with
  | .code o cs | .install o => exact HomeObject.mono hfac h
  | .stateFactory f => exact h
  | .handleExit | .unlock o => trivial

/-- The stack goes on, with every call in the cycle. -/
theorem AtHome.setStack (h : AtHome d)
    (hfac : ∀ o f, d.factoryOf o = some f → d'.factoryOf o = some f)
    (hcur : d'.current = d.current) (hstack : ∀ x ∈ d'.stack, x ∈ d.stack ∨ HomeFrame d' x) :
    AtHome d' := by
  obtain ⟨o, ho, hhome⟩ := h.current
  refine ⟨⟨o, hcur.trans ho, hhome.mono hfac⟩, fun x hx => ?_⟩
  rcases hstack x hx with hx | hx
  · exact (h.stack x hx).mono hfac
  · exact hx

/-- What leaves the stack and the factories alone leaves the switch alone. -/
theorem Returning.congr (h : Returning d)
    (hfac : ∀ o f, d.factoryOf o = some f → d'.factoryOf o = some f)
    (hstack : d'.stack = d.stack) : Returning d' := by
  cases h with
  | exiting hs hf => exact .exiting (hstack.trans hs) hf
  | building hs hf => exact .building (hstack.trans hs) hf
  | initializing hs hcs ho => exact .initializing (hstack.trans hs) hcs (ho.mono hfac)
  | installing hs ho => exact .installing (hstack.trans hs) (ho.mono hfac)

/-- **A method in a switch home** is a constructor of the cycle, which neither
switches nor raises. -/
theorem Returning.code (h : Returning d) {o : ℕ} {cs : List (Command StateFactory)}
    {rest : List (Frame StateFactory)} (hs : d.stack = .code o cs :: rest) :
    rest = [.install o] ∧ Calm cs ∧ HomeObject d o := by
  cases h with
  | exiting hs' => cases hs.symm.trans hs'
  | building hs' => cases hs.symm.trans hs'
  | initializing hs' hcs ho =>
    obtain ⟨hfr, hrest⟩ := List.cons.inj (hs.symm.trans hs')
    obtain ⟨rfl, rfl⟩ := Frame.code.inj hfr
    exact ⟨hrest, hcs, ho⟩
  | installing hs' => cases hs.symm.trans hs'

theorem Returning.stack_ne_nil (h : Returning d) : d.stack ≠ [] := by
  cases h with
  | exiting hs | building hs | initializing hs | installing hs => simp [hs]

/-! ### What a step does on the way -/

variable {i : DeviceStep Outside} {e : Option Effect}

/-- A thread that is about to flash the default firmware stays, or begins. -/
theorem returnsHome_rule (h : ∃ t ∈ d.threads, ReturnsHome t) (hrule : Rule states d i d' e) :
    (∃ t ∈ d'.threads, ReturnsHome t) ∨ Returning d' := by
  obtain ⟨t, ht, hhome⟩ := h
  -- a thread of another kind moves: the one we look at is among the others
  have hother : ∀ {k : ℕ} {t' : DeviceThread StateFactory}, d.threads[k]? = some t' → t' ≠ t →
      ∀ next, t ∈ advance d.threads k next := fun hk hne next =>
    (mem_advance hk).mpr (Or.inr (((mem_iff_eq_or_mem_eraseIdx hk).mp ht).resolve_left hne.symm))
  cases hrule with
  | pop | unlock | skip | status | mark | startTimer | cancelTimer => exact Or.inl ⟨t, ht, hhome⟩
  | switch | raise | exit | build | install | idle => exact Or.inl ⟨t, ht, hhome⟩
  | event | request => exact Or.inl ⟨t, ht, hhome⟩
  | fire => exact Or.inl ⟨t, List.mem_append_left _ ht, hhome⟩
  | flashDefault hk =>
    exact Or.inl ⟨_, (mem_advance hk).mpr (Or.inl rfl), Or.inr rfl⟩
  | @deviceSwitch k f hk hs =>
    by_cases heq : .deviceSwitch f = t
    · subst heq
      obtain rfl : f = flashDefault := by
        rcases hhome with h | h
        · cases h
        · exact DeviceThread.deviceSwitch.inj h
      exact Or.inr (.exiting rfl (Or.inl rfl))
    · exact Or.inl ⟨t, hother hk heq none, hhome⟩
  | stateSwitch hk hs | timerIgnored hk =>
    refine Or.inl ⟨t, hother hk ?_ none, hhome⟩
    rintro rfl
    rcases hhome with h | h <;> cases h
  | @timerSwitch k o f obj hk =>
    refine Or.inl ⟨t, hother hk ?_ (some (.stateSwitch o f)), hhome⟩
    rintro rfl
    rcases hhome with h | h <;> cases h

/-- **A switch home goes on until it is done.** -/
theorem returning_rule (h : Returning d) (hrule : Rule states d i d' e) :
    Returning d' ∨ AtHome d' := by
  have hfac : ∀ o f, d.factoryOf o = some f → d'.factoryOf o = some f := fun _ _ =>
    factoryOf_rule hrule
  have hcode : ∀ {o : ℕ} {c : Command StateFactory} {cs : List (Command StateFactory)}
      {rest : List (Frame StateFactory)}, d.stack = .code o (c :: cs) :: rest →
        d'.stack = .code o cs :: rest → Returning d' := by
    intro o c cs rest hs hs'
    obtain ⟨rfl, hcs, ho⟩ := h.code hs
    exact .initializing hs' (fun c' hc' => hcs c' (List.mem_cons_of_mem _ hc')) (ho.mono hfac)
  cases hrule with
  | pop hs =>
    obtain ⟨rfl, -, ho⟩ := h.code hs
    exact Or.inl (.installing rfl ho)
  | unlock hs =>
    cases h with
    | exiting hs' | building hs' | initializing hs' | installing hs' => cases hs.symm.trans hs'
  | skip hs | status hs | mark hs | startTimer hs | cancelTimer hs => exact Or.inl (hcode hs rfl)
  | @switch x o obj f cs rest hs =>
    obtain ⟨-, hcs, -⟩ := h.code hs
    exact absurd rfl ((hcs _ List.mem_cons_self).2 f)
  | raise hs =>
    obtain ⟨-, hcs, -⟩ := h.code hs
    exact absurd rfl (hcs _ List.mem_cons_self).1
  | exit hs =>
    cases h with
    | exiting hs' hf =>
      obtain ⟨-, rfl⟩ := List.cons.inj (hs.symm.trans hs')
      exact Or.inl (.building rfl hf)
    | building hs' | initializing hs' | installing hs' => cases hs.symm.trans hs'
  | @build x f rest hs =>
    cases h with
    | building hs' hf =>
      obtain ⟨hfr, rfl⟩ := List.cons.inj (hs.symm.trans hs')
      obtain rfl := Frame.stateFactory.inj hfr
      refine Or.inl (.initializing rfl (calm_of_home hf) ⟨f, ?_, hf⟩)
      exact (factoryOf_make d f _).trans (if_pos rfl)
    | exiting hs' | initializing hs' | installing hs' => cases hs.symm.trans hs'
  | @install x o obj rest hs hobj =>
    cases h with
    | installing hs' ho =>
      obtain ⟨hfr, rfl⟩ := List.cons.inj (hs.symm.trans hs')
      obtain rfl := Frame.install.inj hfr
      refine Or.inr ⟨⟨o, rfl, ho⟩, fun y hy => ?_⟩
      obtain rfl := List.mem_singleton.mp hy
      exact ho
    | exiting hs' | building hs' | initializing hs' => cases hs.symm.trans hs'
  | idle => exact Or.inl h
  | event hs | request hs | deviceSwitch _ hs | stateSwitch _ hs => exact absurd hs h.stack_ne_nil
  | fire | flashDefault | timerIgnored | timerSwitch => exact Or.inl (h.congr hfac rfl)

/-- The current object of a device at home is one of the cycle. -/
theorem AtHome.homeObject (h : AtHome d) {o : ℕ} (ho : d.current = some o) : HomeObject d o := by
  obtain ⟨o', ho', hhome⟩ := h.current
  exact Option.some.inj (ho'.symm.trans ho) ▸ hhome

/-- The calls under the top one belong to the cycle, and so does what they are
replaced with. -/
theorem AtHome.call (h : AtHome d)
    (hfac : ∀ o f, d.factoryOf o = some f → d'.factoryOf o = some f)
    (hcur : d'.current = d.current) (new : List (Frame StateFactory)) {x : Frame StateFactory}
    {rest : List (Frame StateFactory)} (hs : d.stack = x :: rest) (hs' : d'.stack = new ++ rest)
    (hnew : ∀ y ∈ new, HomeFrame d' y) : AtHome d' := by
  refine h.setStack hfac hcur fun y hy => ?_
  rcases List.mem_append.mp (hs' ▸ hy) with hy | hy
  · exact Or.inr (hnew y hy)
  · exact Or.inl (hs ▸ List.mem_cons_of_mem _ hy)

/-- The method on top of the stack has done a command. -/
theorem AtHome.code (h : AtHome d)
    (hfac : ∀ o f, d.factoryOf o = some f → d'.factoryOf o = some f)
    (hcur : d'.current = d.current) {o : ℕ} {c : Command StateFactory}
    {cs : List (Command StateFactory)} {rest : List (Frame StateFactory)}
    (hs : d.stack = .code o (c :: cs) :: rest) (hs' : d'.stack = .code o cs :: rest) :
    AtHome d' := by
  have ho : HomeObject d o := h.stack (.code o (c :: cs)) (hs ▸ List.mem_cons_self)
  refine h.call hfac hcur [.code o cs] hs hs' fun y hy => ?_
  obtain rfl := List.mem_singleton.mp hy
  exact ho.mono hfac

/-- A switch to the cycle begins. -/
theorem AtHome.begin (h : AtHome d)
    (hfac : ∀ o f, d.factoryOf o = some f → d'.factoryOf o = some f)
    (hcur : d'.current = d.current) {f : StateFactory} (hf : Home f)
    (hs' : d'.stack = [.handleExit, .stateFactory f]) : AtHome d' := by
  refine h.setStack hfac hcur fun y hy => Or.inr ?_
  rw [hs', List.mem_pair] at hy
  rcases hy with rfl | rfl
  · trivial
  · exact hf

/-- **A device at home stays there**, unless it is told to switch elsewhere. -/
theorem atHome_rule (h : AtHome d) (horigin : states.Origin d)
    (hthreads : ∀ f, .deviceSwitch f ∈ d.threads → Home f) (hrule : Rule states d i d' e) :
    AtHome d' := by
  have hfac : ∀ o f, d.factoryOf o = some f → d'.factoryOf o = some f := fun _ _ =>
    factoryOf_rule hrule
  cases hrule with
  | pop hs | unlock hs | exit hs =>
    exact h.call hfac rfl [] hs rfl fun y hy => absurd hy List.not_mem_nil
  | skip hs | status hs | mark hs | startTimer hs | cancelTimer hs => exact h.code hfac rfl hs rfl
  | @switch x o obj f cs rest hs hobj =>
    have hmem : .code o (.switch f :: cs) ∈ d.stack := hs ▸ List.mem_cons_self
    have ho : HomeObject d o := h.stack _ hmem
    have hg : Home f := by
      obtain ⟨m, f', y, hf', hcs⟩ := horigin.stack.of_mem hmem
      obtain ⟨f'', hf'', hhome⟩ := ho
      obtain rfl := Option.some.inj (hf'.symm.trans hf'')
      exact home_of_switch hhome (hcs.subset List.mem_cons_self)
    refine h.call hfac rfl [.handleExit, .stateFactory f, .code o cs] hs rfl fun y hy => ?_
    simp only [List.mem_cons, List.not_mem_nil, or_false] at hy
    rcases hy with rfl | rfl | rfl
    · trivial
    · exact hg
    · exact ho.mono hfac
  | raise hs => exact h.setStack hfac rfl fun y hy => absurd hy List.not_mem_nil
  | @build x f rest hs =>
    have hnew : HomeObject
        { d with
          objects := d.objects ++ [⟨f, false, false, none⟩]
          stack := .code d.objects.length (states.code .init f x) ::
            .install d.objects.length :: rest } d.objects.length :=
      ⟨f, (factoryOf_make d f _).trans (if_pos rfl),
        h.stack (.stateFactory f) (hs ▸ List.mem_cons_self)⟩
    refine h.call hfac rfl [.code _ _, .install _] hs rfl fun y hy => ?_
    rcases List.mem_pair.mp hy with rfl | rfl
    · exact hnew
    · exact hnew
  | @install x o obj rest hs hobj =>
    have ho : HomeObject d o := h.stack (.install o) (hs ▸ List.mem_cons_self)
    refine ⟨⟨o, rfl, ho⟩, fun y hy => ?_⟩
    rcases List.mem_cons.mp hy with rfl | hy
    · exact ho
    · exact h.stack y (hs ▸ List.mem_cons_of_mem _ hy)
  | idle => exact h
  | event hs hcur =>
    refine h.setStack hfac rfl fun y hy => Or.inr ?_
    rcases List.mem_pair.mp hy with rfl | rfl
    · exact h.homeObject hcur
    · trivial
  | request hs hcur =>
    refine h.setStack hfac rfl fun y hy => Or.inr ?_
    obtain rfl := List.mem_singleton.mp hy
    exact h.homeObject hcur
  | deviceSwitch hk hs => exact h.begin hfac rfl (hthreads _ (List.mem_of_getElem? hk)) rfl
  | @stateSwitch k o f hk hs =>
    obtain rfl := eq_broken_of_timed (horigin.thread _ (List.mem_of_getElem? hk) f rfl)
    exact h.begin hfac rfl (Or.inr (Or.inr (Or.inr rfl))) rfl
  | fire | flashDefault | timerIgnored | timerSwitch =>
    exact h.setStack hfac rfl fun y hy => Or.inl hy

/-- More threads do not end the way home. -/
theorem Homeward.threads (h : Homeward d) (ts : List (DeviceThread StateFactory)) :
    Homeward { d with threads := d.threads ++ ts } := by
  rcases h with ⟨t, ht, hhome⟩ | h | h
  · exact Or.inl ⟨t, List.mem_append_left _ ht, hhome⟩
  · exact Or.inr (Or.inl (h.congr (fun _ _ => id) rfl))
  · exact Or.inr (Or.inr (h.setStack (fun _ _ => id) rfl fun x hx => Or.inl hx))

/-- Inside a device, only switches home come to wait. -/
theorem deviceSwitch_rule {f : StateFactory} (hrule : Rule states d i d' e)
    (hf : .deviceSwitch f ∈ d'.threads) : .deviceSwitch f ∈ d.threads ∨ Home f := by
  have hmove : ∀ {k : ℕ} {t : DeviceThread StateFactory}, d.threads[k]? = some t → ∀ next,
      .deviceSwitch f ∈ advance d.threads k next →
        .deviceSwitch f ∈ d.threads ∨ next = some (.deviceSwitch f) := fun hk next h =>
    ((mem_advance hk).mp h).symm.imp_left fun hin => List.mem_of_mem_eraseIdx hin
  cases hrule with
  | pop | unlock | skip | status | mark | startTimer | cancelTimer => exact Or.inl hf
  | switch | raise | exit | build | install | idle => exact Or.inl hf
  | event | request => exact Or.inl hf
  | fire => exact Or.inl ((List.mem_append.mp hf).resolve_right (by simp))
  | flashDefault hk =>
    refine (hmove hk (some (.deviceSwitch flashDefault)) hf).imp_right fun heq => ?_
    exact Or.inl (DeviceThread.deviceSwitch.inj (Option.some.inj heq)).symm
  | deviceSwitch hk | stateSwitch hk | timerIgnored hk =>
    exact Or.inl ((hmove hk none hf).resolve_right (by simp))
  | @timerSwitch k o g obj hk =>
    exact Or.inl ((hmove hk (some (.stateSwitch o g)) hf).resolve_right (by simp))

/-- **A homeward device stays homeward**, unless it is told to switch
elsewhere. -/
theorem homeward_rule (h : Homeward d) (horigin : states.Origin d)
    (hthreads : ∀ f, .deviceSwitch f ∈ d.threads → Home f) (hrule : Rule states d i d' e) :
    Homeward d' := by
  rcases h with h | h | h
  · exact (returnsHome_rule h hrule).imp id Or.inl
  · exact Or.inr (returning_rule h hrule)
  · exact Or.inr (Or.inr (atHome_rule h horigin hthreads hrule))

/-! ### The announcement -/

/-- No call of `Device.switch` is under way. -/
def Quiet (stack : List (Frame StateFactory)) : Prop := ∀ y ∈ stack, ¬y.InSwitch

/-- **Where a device is while its status stands at `available`**: its
`ReadyState` has announced it and waits to be installed, or is current, or is
about to give way to a `BrokenState`, whose constructor writes another
status. -/
inductive Announced (d : Device StateFactory) : Prop
  | building {o : ℕ} {rest : List (Frame StateFactory)}
      (hs : d.stack = .code o [] :: .install o :: rest) (ho : d.factoryOf o = some .ready)
      (hrest : Quiet rest)
  | installing {o : ℕ} {rest : List (Frame StateFactory)} (hs : d.stack = .install o :: rest)
      (ho : d.factoryOf o = some .ready) (hrest : Quiet rest)
  | ready {o : ℕ} (hcur : d.current = some o) (ho : d.factoryOf o = some .ready)
      (hrest : Quiet d.stack)
  | exiting {rest : List (Frame StateFactory)}
      (hs : d.stack = .handleExit :: .stateFactory .broken :: rest)
  | replacing {rest : List (Frame StateFactory)} (hs : d.stack = .stateFactory .broken :: rest)
  | breaking {o : ℕ} {rest : List (Frame StateFactory)}
      (hs : d.stack = .code o [.updateDeviceStatus .broken] :: .install o :: rest)

/-- What leaves the stack, the current object and the factories alone changes
nothing here. -/
theorem Announced.congr (h : Announced d)
    (hfac : ∀ o f, d.factoryOf o = some f → d'.factoryOf o = some f)
    (hcur : d'.current = d.current) (hstack : d'.stack = d.stack) : Announced d' := by
  cases h with
  | building hs ho hrest => exact .building (hstack.trans hs) (hfac _ _ ho) hrest
  | installing hs ho hrest => exact .installing (hstack.trans hs) (hfac _ _ ho) hrest
  | ready hc ho hrest => exact .ready (hcur.trans hc) (hfac _ _ ho) (hstack ▸ hrest)
  | exiting hs => exact .exiting (hstack.trans hs)
  | replacing hs => exact .replacing (hstack.trans hs)
  | breaking hs => exact .breaking (hstack.trans hs)

/-- Without an announcement to come, no object of the cycle switches on its
own. -/
theorem not_switch_of_supply (hsupply : ration.supply d = 0) (horigin : states.Origin d)
    (hhome : Homeward d) {o : ℕ} {obj : StateObject StateFactory} {f : StateFactory}
    {cs : List (Command StateFactory)} {rest : List (Frame StateFactory)}
    (hs : d.stack = .code o (.switch f :: cs) :: rest) (hobj : d.objects[o]? = some obj) :
    obj.switching = true := by
  by_contra hflag
  have hmem : .code o (.switch f :: cs) ∈ d.stack := hs ▸ List.mem_cons_self
  rcases hhome with ⟨t, ht, hreturns⟩ | hhome | hhome
  · obtain ⟨k, hk⟩ := List.mem_iff_getElem?.mp ht
    have hle := ration.ofThread_le_supply hk
    rcases hreturns with rfl | rfl
    · exact absurd (hle.trans_eq hsupply) (by decide)
    · exact absurd (hle.trans_eq hsupply) (by decide)
  · obtain ⟨-, hcalm, -⟩ := hhome.code hs
    exact (hcalm _ List.mem_cons_self).2 f rfl
  · obtain ⟨m, g, x, hg, hcs⟩ := horigin.stack.of_mem hmem
    obtain ⟨g', hg', hgh⟩ := hhome.stack _ hmem
    obtain rfl := Option.some.inj (hg.symm.trans hg')
    obtain rfl : obj.factory = g := Option.some.inj ((factoryOf_of_getElem? hobj).symm.trans hg)
    have hhold : ration.hold obj.factory = 0 := by
      have hle := ration.ofObject_le_supply hobj
      rw [Ration.ofObject, if_neg hflag, hsupply] at hle
      exact Nat.le_zero.mp hle
    have hsw := mayDo_of_mem_code (hcs.subset List.mem_cons_self)
    rcases hgh with hgh | hgh | hgh | hgh
    · rw [hgh] at hhold
      exact absurd hhold (by decide)
    · rw [hgh] at hhold
      exact absurd hhold (by decide)
    · rw [hgh] at hsw
      rcases hsw with ⟨-, _, _, _, h, -⟩ | ⟨-, h, -⟩ | ⟨-, h, -⟩ | ⟨-, h, -⟩ <;> cases h
    · rw [hgh] at hsw
      rcases hsw with ⟨-, _, _, _, h, -⟩ | ⟨-, h, -⟩ | ⟨-, h, -⟩ | ⟨-, h, -⟩ <;> cases h

/-- A `ReadyState` is current, and nothing is about to replace it. -/
def AtReady (d : Device StateFactory) : Prop :=
  ∃ o, d.current = some o ∧ d.factoryOf o = some .ready ∧ Quiet d.stack

theorem AtReady.announced (h : AtReady d) : Announced d := by
  obtain ⟨o, hcur, ho, hrest⟩ := h
  exact .ready hcur ho hrest

/-- The method on top of an announced device's stack. -/
theorem Announced.code (h : Announced d) {o : ℕ} {cs : List (Command StateFactory)}
    {rest : List (Frame StateFactory)} (hs : d.stack = .code o cs :: rest) :
    (cs = [] ∧ ∃ rest', rest = .install o :: rest' ∧ d.factoryOf o = some .ready ∧ Quiet rest') ∨
      cs = [.updateDeviceStatus .broken] ∨ AtReady d := by
  cases h with
  | building hs' ho hrest =>
    obtain ⟨hfr, rfl⟩ := List.cons.inj (hs.symm.trans hs')
    obtain ⟨rfl, rfl⟩ := Frame.code.inj hfr
    exact Or.inl ⟨rfl, _, rfl, ho, hrest⟩
  | ready hcur ho hrest => exact Or.inr (Or.inr ⟨_, hcur, ho, hrest⟩)
  | breaking hs' =>
    obtain ⟨hfr, -⟩ := List.cons.inj (hs.symm.trans hs')
    exact Or.inr (Or.inl (Frame.code.inj hfr).2)
  | installing hs' | exiting hs' | replacing hs' => cases hs.symm.trans hs'

/-- A `ReadyState` stays current while the stack gets no call of a switch. -/
theorem AtReady.mono (h : AtReady d)
    (hfac : ∀ o f, d.factoryOf o = some f → d'.factoryOf o = some f)
    (hcur : d'.current = d.current) (hstack : ∀ y ∈ d'.stack, y ∈ d.stack ∨ ¬y.InSwitch) :
    AtReady d' := by
  obtain ⟨o, ho, hready, hquiet⟩ := h
  refine ⟨o, hcur.trans ho, hfac _ _ hready, fun y hy => ?_⟩
  rcases hstack y hy with hy | hy
  · exact hquiet y hy
  · exact hy

/-- The top call has returned. -/
theorem AtReady.pop (h : AtReady d)
    (hfac : ∀ o f, d.factoryOf o = some f → d'.factoryOf o = some f)
    (hcur : d'.current = d.current) {x : Frame StateFactory} {rest : List (Frame StateFactory)}
    (hs : d.stack = x :: rest) (hs' : d'.stack = rest) : AtReady d' :=
  h.mono hfac hcur fun _ hy => Or.inl (hs ▸ List.mem_cons_of_mem _ (hs' ▸ hy))

/-- The method on top of the stack has done a command that is not the status of
a `BrokenState`: a `ReadyState` is current. -/
theorem Announced.command (h : Announced d)
    (hfac : ∀ o f, d.factoryOf o = some f → d'.factoryOf o = some f)
    (hcur : d'.current = d.current) {o : ℕ} {c : Command StateFactory}
    {cs : List (Command StateFactory)} {rest : List (Frame StateFactory)}
    (hs : d.stack = .code o (c :: cs) :: rest) (hc : c ≠ .updateDeviceStatus .broken)
    (hs' : d'.stack = .code o cs :: rest) : AtReady d' := by
  rcases h.code hs with ⟨hnil, -⟩ | hbroken | hready
  · cases hnil
  · exact absurd (List.cons.inj hbroken).1 hc
  · refine hready.mono hfac hcur fun y hy => ?_
    rcases List.mem_cons.mp (hs' ▸ hy) with rfl | hy
    · exact Or.inr id
    · exact Or.inl (hs ▸ List.mem_cons_of_mem _ hy)

/-- An exit is made for a `BrokenState`. -/
theorem Announced.of_exit (h : Announced d) {rest : List (Frame StateFactory)}
    (hs : d.stack = .handleExit :: rest) : ∃ rest', rest = .stateFactory .broken :: rest' := by
  cases h with
  | exiting hs' => exact ⟨_, (List.cons.inj (hs.symm.trans hs')).2⟩
  | ready hcur ho hrest => exact absurd trivial (hrest .handleExit (hs ▸ List.mem_cons_self))
  | building hs' | installing hs' | replacing hs' | breaking hs' => cases hs.symm.trans hs'

/-- What is built is a `BrokenState`. -/
theorem Announced.of_build (h : Announced d) {f : StateFactory} {rest : List (Frame StateFactory)}
    (hs : d.stack = .stateFactory f :: rest) : f = .broken := by
  cases h with
  | replacing hs' => exact Frame.stateFactory.inj (List.cons.inj (hs.symm.trans hs')).1
  | ready hcur ho hrest => exact absurd trivial (hrest (.stateFactory f) (hs ▸ List.mem_cons_self))
  | building hs' | installing hs' | exiting hs' | breaking hs' => cases hs.symm.trans hs'

/-- What is installed is the `ReadyState`. -/
theorem Announced.of_install (h : Announced d) {o : ℕ} {rest : List (Frame StateFactory)}
    (hs : d.stack = .install o :: rest) : d.factoryOf o = some .ready ∧ Quiet rest := by
  cases h with
  | installing hs' ho hrest =>
    obtain ⟨hfr, rfl⟩ := List.cons.inj (hs.symm.trans hs')
    obtain rfl := Frame.install.inj hfr
    exact ⟨ho, hrest⟩
  | ready hcur ho hrest => exact absurd trivial (hrest (.install o) (hs ▸ List.mem_cons_self))
  | building hs' | exiting hs' | replacing hs' | breaking hs' => cases hs.symm.trans hs'

/-- Where the lock is released, a `ReadyState` is current. -/
theorem Announced.of_unlock (h : Announced d) {o : ℕ} {rest : List (Frame StateFactory)}
    (hs : d.stack = .unlock o :: rest) : AtReady d := by
  cases h with
  | ready hcur ho hrest => exact ⟨_, hcur, ho, hrest⟩
  | building hs' | installing hs' | exiting hs' | replacing hs' | breaking hs' =>
    cases hs.symm.trans hs'

/-- Where the lock is free, a `ReadyState` is current. -/
theorem Announced.of_free (h : Announced d) (hs : d.stack = []) : AtReady d := by
  cases h with
  | ready hcur ho hrest => exact ⟨_, hcur, ho, hrest⟩
  | building hs' | installing hs' | exiting hs' | replacing hs' | breaking hs' =>
    cases hs.symm.trans hs'

/-- Of the classes of the cycle, all but `BrokenState` lead to an
announcement. -/
theorem eq_broken_of_need {f : StateFactory} (hf : Home f) (hneed : need f = 0) : f = .broken := by
  rcases hf with rfl | rfl | rfl | rfl
  · exact absurd hneed (by decide)
  · exact absurd hneed (by decide)
  · exact absurd hneed (by decide)
  · rfl

/-- **While the status stands and nothing else is to be announced**, a step
keeps the device where it is, or writes another status. -/
theorem announced_rule (h : Announced d) (horigin : states.Origin d)
    (hsupply : ration.supply d = 0) (hhome : Homeward d)
    (hthreads : ∀ f, .deviceSwitch f ∈ d.threads → Home f) (hrule : Rule states d i d' e) :
    Announced d' ∨ ∃ st, st ≠ .available ∧ e = some (.status st) := by
  have hfac : ∀ o f, d.factoryOf o = some f → d'.factoryOf o = some f := fun _ _ =>
    factoryOf_rule hrule
  have hcost : Ration.cost e = 0 := by
    have hle := ration.supply_rule horigin hrule
    omega
  cases hrule with
  | pop hs hcs =>
    rcases h.code hs with ⟨rfl, rest', rfl, ho, hrest⟩ | rfl | hready
    · exact Or.inl (.installing rfl ho hrest)
    · cases hcs
    · exact Or.inl (hready.pop hfac rfl hs rfl).announced
  | unlock hs => exact Or.inl ((h.of_unlock hs).pop hfac rfl hs rfl).announced
  | skip hs hc =>
    refine Or.inl (h.command hfac rfl hs ?_ rfl).announced
    rintro rfl
    cases hc
  | @status x o st cs rest hs =>
    refine Or.inr ⟨st, ?_, rfl⟩
    rintro rfl
    cases hcost
  | mark hs | startTimer hs | cancelTimer hs =>
    exact Or.inl (h.command hfac rfl hs (by simp) rfl).announced
  | switch hs hobj hflag =>
    rw [not_switch_of_supply hsupply horigin hhome hs hobj] at hflag
    cases hflag
  | raise hs =>
    rcases h.code hs with ⟨hnil, -⟩ | hbroken | hready
    · cases hnil
    · cases hbroken
    · exact Or.inl (hready.mono hfac rfl fun _ hy => absurd hy List.not_mem_nil).announced
  | exit hs =>
    obtain ⟨rest', rfl⟩ := h.of_exit hs
    exact Or.inl (.replacing rfl)
  | @build x f rest hs =>
    obtain rfl := h.of_build hs
    exact Or.inl (.breaking rfl)
  | @install x o obj rest hs hobj =>
    obtain ⟨ho, hrest⟩ := h.of_install hs
    refine Or.inl (.ready rfl ho fun y hy => ?_)
    rcases List.mem_cons.mp hy with rfl | hy
    · exact id
    · exact hrest y hy
  | idle => exact Or.inl h
  | event hs =>
    refine Or.inl ((h.of_free hs).mono hfac rfl fun y hy => Or.inr ?_).announced
    rcases List.mem_pair.mp hy with rfl | rfl
    · exact id
    · exact id
  | request hs =>
    refine Or.inl ((h.of_free hs).mono hfac rfl fun y hy => Or.inr ?_).announced
    obtain rfl := List.mem_singleton.mp hy
    exact id
  | @deviceSwitch k f hk hs =>
    have hneed : need f ≤ 0 := (ration.ofThread_le_supply hk).trans_eq hsupply
    obtain rfl := eq_broken_of_need (hthreads f (List.mem_of_getElem? hk)) (Nat.le_zero.mp hneed)
    exact Or.inl (.exiting rfl)
  | @stateSwitch k o f hk hs =>
    obtain rfl := eq_broken_of_timed (horigin.thread _ (List.mem_of_getElem? hk) f rfl)
    exact Or.inl (.exiting rfl)
  | fire | timerIgnored | timerSwitch => exact Or.inl (h.congr hfac rfl rfl)
  | flashDefault => exact Or.inr ⟨.flashingDefault, by simp, rfl⟩

/-- **The announcement** is made by a `ReadyState` that is about to be installed
and that no other switch waits for. -/
theorem announced_of_status (horigin : states.Origin d) {log : List Effect}
    (hshape : Shape states d log) (hrule : Rule states d i d' e)
    (he : e = some (.status .available)) : Announced d' := by
  cases hrule with
  | @status x o st cs rest hs =>
    obtain rfl := Effect.status.inj (Option.some.inj he)
    obtain ⟨⟨m, f, y, hf, hcs, hinit⟩, -⟩ := hs ▸ horigin.stack
    obtain ⟨rfl, rfl⟩ := announces_of_mem_code (hcs.subset List.mem_cons_self) rfl
    obtain ⟨rest', rfl⟩ := List.head?_eq_some_iff.mp (hinit rfl)
    obtain rfl : cs = [] := List.length_eq_zero_iff.mp (Nat.le_zero.mp
      (Nat.le_of_succ_le_succ hcs.length_le))
    refine .building rfl hf fun z hz hsw => ?_
    obtain ⟨hhead, -⟩ := List.pairwise_cons.mp (List.pairwise_cons.mp (hs ▸ hshape.nested)).2
    cases eq_broken_of_fallback ((hhead z hz hsw).2 _ hf)
  | exit hs =>
    obtain ⟨o, -, ho⟩ := Option.map_eq_some_iff.mp he
    cases ho
  | pop | unlock | skip | mark | startTimer | cancelTimer | switch | raise | build => cases he
  | install | idle | event | request | fire | flashDefault | deviceSwitch => cases he
  | stateSwitch | timerIgnored | timerSwitch => cases he

end UsbipIce.Worker
