import UsbipIce.Worker.Origin
import UsbipIce.Worker.Stale

/-!
# Which state objects are ever installed

`Device.switch` installs what the factory returns, and a factory that raises
returns nothing: the exception leaves every call under the lock, and the object
half made is gone. But the constructor may have called `switch` itself before, so
that installations are under way within installations, and a constructor that has
fallen back to `BrokenState` still raises once this one is installed.

Through all of it an object that is installed, exited or given an event or a
request is one whose constructor has returned (`UsbipIce.StateTable.WellMade`), given
what this constructor has found outside (`UsbipIce.StateTable.Made`).
For the classes of a worker this tells what is never there: no `UsbipState` at all,
since its constructor always raises, and no `PulseCountState` whose constructor has
not found its port, or could not open it (`UsbipIce.Worker.constructed`).
-/

namespace UsbipIce

open Lib

/-! ### Constructors that return -/

namespace Command

variable {F : Type*}

/-- The commands come to an exception, with no `return` before it. -/
def raises : List (Command F) → Bool
  | [] | .returnIfSwitching :: _ | .returnIfExiting :: _ => false
  | .raise :: _ => true
  | .updateDeviceStatus _ :: cs | .startTimer _ :: cs | .cancelTimer :: cs | .switch _ :: cs =>
    raises cs

/-- One more command that is no exception. -/
theorem raises_cons {c : Command F} (hc : c ≠ .raise) {cs : List (Command F)}
    (h : raises cs = false) : raises (c :: cs) = false := by
  cases c with
  | raise => exact absurd rfl hc
  | returnIfSwitching | returnIfExiting => rfl
  | updateDeviceStatus | startTimer | cancelTimer | switch => exact h

end Command

/-- The object that an effect is about. -/
def Effect.object : Effect → Option ℕ
  | .exit o | .start o | .dispatch _ o => some o
  | .status _ => none

namespace StateTable

variable {F I : Type*}

/-- **The object's constructor has returned**, with what it has found outside. -/
def Constructed (P : StateTable F I) (made : ℕ → F → I → Prop) (factoryOf : ℕ → Option F)
    (o : ℕ) : Prop :=
  ∃ f x, factoryOf o = some f ∧ made o f x ∧ Command.raises (P.code .init f x) = false

/-- **The calls under way**: what is to be installed next is good, and so is what is
to be installed after a constructor, should it return. -/
inductive Built (good : ℕ → Prop) : List (Frame F) → Prop
  | nil : Built good []
  | code {o : ℕ} {cs : List (Command F)} {rest : List (Frame F)} (h : Built good rest) :
      Built good (.code o cs :: rest)
  /-- A constructor, which may call `switch` on its own. -/
  | constructor {o o' : ℕ} {cs : List (Command F)} {rest : List (Frame F)}
      (hgood : Command.raises cs = false → good o') (h : Built good rest) :
      Built good (.code o cs :: .install o' :: rest)
  | handleExit {rest : List (Frame F)} (h : Built good rest) : Built good (.handleExit :: rest)
  | stateFactory {f : F} {rest : List (Frame F)} (h : Built good rest) :
      Built good (.stateFactory f :: rest)
  | install {o : ℕ} {rest : List (Frame F)} (hgood : good o) (h : Built good rest) :
      Built good (.install o :: rest)
  | unlock {o : ℕ} {rest : List (Frame F)} (h : Built good rest) : Built good (.unlock o :: rest)

namespace Built

variable {good good' : ℕ → Prop} {o : ℕ} {c : Command F} {cs : List (Command F)}
  {rest stack : List (Frame F)}

theorem mono (hgood : ∀ o, good o → good' o) (h : Built good stack) : Built good' stack := by
  induction h with
  | nil => exact .nil
  | code _ ih => exact .code ih
  | constructor hcs _ ih => exact .constructor (fun hr => hgood _ (hcs hr)) ih
  | handleExit _ ih => exact .handleExit ih
  | stateFactory _ ih => exact .stateFactory ih
  | install ho _ ih => exact .install (hgood _ ho) ih
  | unlock _ ih => exact .unlock ih

/-- A method goes on. -/
theorem next (h : Built good (.code o (c :: cs) :: rest)) (hc : c ≠ .raise) :
    Built good (.code o cs :: rest) := by
  cases h with
  | code h => exact .code h
  | constructor hgood h => exact .constructor (fun hr => hgood (Command.raises_cons hc hr)) h

/-- A method returns. -/
theorem returned (h : Built good (.code o cs :: rest)) (hr : Command.raises cs = false) :
    Built good rest := by
  cases h with
  | code h => exact h
  | constructor hgood h => exact .install (hgood hr) h

end Built

/-- **Only what was constructed is ever installed**, exited, or given an event or a
request. -/
structure WellMade (P : StateTable F I) (made : ℕ → F → I → Prop) (r : DeviceRun F) : Prop where
  built : Built (Constructed P made r.device.factoryOf) r.device.stack
  current : ∀ o, r.device.current = some o → Constructed P made r.device.factoryOf o
  log : ∀ e ∈ r.log, ∀ o, e.object = some o → Constructed P made r.device.factoryOf o

variable {P : StateTable F I} {made : ℕ → F → I → Prop} {d d' : Device F} {log : List Effect}

theorem Constructed.mono {factoryOf factoryOf' : ℕ → Option F}
    (hfac : ∀ o f, factoryOf o = some f → factoryOf' o = some f) {o : ℕ}
    (h : Constructed P made factoryOf o) : Constructed P made factoryOf' o := by
  obtain ⟨f, x, hf, hx, hr⟩ := h
  exact ⟨f, x, hfac o f hf, hx, hr⟩

/-- A method that returns has come to no exception. -/
theorem raises_of_pop {x : I} {o : ℕ} {cs : List (Command F)} {rest : List (Frame F)}
    (hs : d.stack = .code o cs :: rest) (hcs : cs.head?.all Command.conditional)
    (h : P.exec d x = some ({ d with stack := rest }, none)) : Command.raises cs = false := by
  cases cs with
  | nil => rfl
  | cons c cs =>
    cases c with
    | returnIfSwitching | returnIfExiting => rfl
    | updateDeviceStatus | startTimer | cancelTimer | raise => cases hcs
    | switch f =>
      -- the calls get no fewer
      rw [exec, hs] at h
      obtain ⟨obj, -, heq⟩ := Option.map_eq_some_iff.mp h
      have hlength := congrArg (fun p => p.1.stack.length) heq
      rw [command] at hlength
      split at hlength
      · simp only [List.length_cons] at hlength
        omega
      · simp only [List.length_cons] at hlength
        omega

/-! ### Every step installs what was constructed -/

/-- What a rule has to show: the factories stay, and the stack, the object installed
and the effect are good. -/
theorem WellMade.frame (h : WellMade P made ⟨d, log⟩)
    (hfac : ∀ o f, d.factoryOf o = some f → d'.factoryOf o = some f)
    (hbuilt : Built (Constructed P made d.factoryOf) d.stack →
      Built (Constructed P made d'.factoryOf) d'.stack)
    (hcurrent : ∀ o, d'.current = some o → Constructed P made d.factoryOf o) {e : Option Effect}
    (he : ∀ o, e.bind Effect.object = some o → Constructed P made d.factoryOf o) :
    WellMade P made ⟨d', e.toList ++ log⟩ where
  built := hbuilt h.built
  current := fun o ho => (hcurrent o ho).mono hfac
  log := fun e' he' o ho => by
    rcases List.mem_append.mp he' with hnew | hold
    · rw [Option.mem_toList.mp hnew] at he
      exact (he o ho).mono hfac
    · exact (h.log e' hold o ho).mono hfac

/-- What a step of the thread holding the lock finds outside, where it makes an
object. -/
def Makes (made : ℕ → F → I → Prop) (d : Device F) (i : DeviceStep I) : Prop :=
  ∀ x f rest, i = .exec x → d.stack = .stateFactory f :: rest → made d.objects.length f x

/-- **Every rule keeps it**; a method that returns has not raised. -/
theorem wellMade_rule {i : DeviceStep I} {e : Option Effect} (h : WellMade P made ⟨d, log⟩)
    (hmakes : Makes made d i) (hrule : Rule P d i d' e)
    (hstep : P.step d i = some (d', e)) : WellMade P made ⟨d', e.toList ++ log⟩ := by
  have hfac : ∀ o f, d.factoryOf o = some f → d'.factoryOf o = some f :=
    fun o f => factoryOf_rule hrule
  have hgood : ∀ o, Constructed P made d.factoryOf o → Constructed P made d'.factoryOf o :=
    fun o => Constructed.mono hfac
  have hquiet : ∀ o, (none : Option Effect).bind Effect.object = some o →
      Constructed P made d.factoryOf o := fun o ho => by cases ho
  have hdispatch : ∀ {m o}, d.current = some o → ∀ j,
      (some (Effect.dispatch m o)).bind Effect.object = some j →
        Constructed P made d.factoryOf j := by
    intro m o hcur j hj
    obtain rfl := Option.some.inj hj
    exact h.current o hcur
  cases hrule with
  | pop hs hcs =>
    exact h.frame hfac (fun hb => ((hs ▸ hb).returned (raises_of_pop hs hcs hstep)).mono hgood)
      h.current hquiet
  | unlock hs =>
    refine h.frame hfac (fun hb => ?_) h.current hquiet
    cases hs ▸ hb with
    | unlock hrest => exact hrest.mono hgood
  | @skip x o c cs rest hs hc =>
    have hne : c ≠ .raise := fun heq => by
      rw [heq] at hc
      cases hc
    exact h.frame hfac (fun hb => ((hs ▸ hb).next hne).mono hgood) h.current hquiet
  | @status x o st cs rest hs =>
    exact h.frame hfac (fun hb => ((hs ▸ hb).next (by simp)).mono hgood) h.current
      fun o ho => by cases ho
  | mark hs hobj | startTimer hs hobj | cancelTimer hs hobj =>
    exact h.frame hfac (fun hb => ((hs ▸ hb).next (by simp)).mono hgood) h.current hquiet
  | switch hs hobj hflag =>
    exact h.frame hfac (fun hb => .handleExit (.stateFactory
      (((hs ▸ hb).next (by simp)).mono hgood))) h.current hquiet
  | raise hs => exact h.frame hfac (fun _ => .nil) h.current hquiet
  | exit hs =>
    refine h.frame hfac (fun hb => ?_) h.current fun o ho => ?_
    · cases hs ▸ hb with
      | handleExit hrest => exact hrest.mono hgood
    · obtain ⟨o', ho', heq⟩ := Option.bind_eq_some_iff.mp ho
      obtain ⟨o'', hcur, rfl⟩ := Option.map_eq_some_iff.mp ho'
      obtain rfl := Option.some.inj heq
      exact h.current o'' hcur
  | @build x f rest hs =>
    refine h.frame hfac (fun hb => .constructor (fun hr => ?_) ?_) h.current hquiet
    · exact ⟨f, x, (factoryOf_make d f _).trans (if_pos rfl), hmakes x f rest rfl hs, hr⟩
    · cases hs ▸ hb with
      | stateFactory hrest => exact hrest.mono hgood
  | @install x o obj rest hs hobj =>
    obtain ⟨ho, hrest⟩ : Constructed P made d.factoryOf o ∧
        Built (Constructed P made d.factoryOf) rest := by
      cases hs ▸ h.built with
      | install ho hrest => exact ⟨ho, hrest⟩
    refine h.frame hfac (fun _ => .code (hrest.mono hgood)) (fun j hj => ?_) fun j hj => ?_
    · exact Option.some.inj hj ▸ ho
    · exact Option.some.inj hj ▸ ho
  | idle => exact h.frame hfac (Built.mono hgood) h.current hquiet
  | event hs hcur hobj =>
    exact h.frame hfac (fun _ => .code (.unlock .nil)) h.current (hdispatch hcur)
  | request hs hcur hobj => exact h.frame hfac (fun _ => .code .nil) h.current (hdispatch hcur)
  | fire hobj htimer => exact h.frame hfac (Built.mono hgood) h.current hquiet
  | flashDefault hk =>
    exact h.frame hfac (Built.mono hgood) h.current fun o ho => by cases ho
  | deviceSwitch hk hs | stateSwitch hk hs =>
    exact h.frame hfac (fun _ => .handleExit (.stateFactory .nil)) h.current hquiet
  | timerIgnored hk hobj hflag | timerSwitch hk hobj hflag =>
    exact h.frame hfac (Built.mono hgood) h.current hquiet

/-- **Every step keeps it.** -/
theorem wellMade_step {r r' : DeviceRun F} {i : DeviceInput I} (h : WellMade P made r)
    (hmakes : ∀ j, i = .step j → Makes made r.device j) (hstep : P.runStep r i = some r') :
    WellMade P made r' := by
  cases i with
  | handleReserve kind =>
    obtain rfl := Option.some.inj hstep
    rw [handleReserve]
    split
    · exact h
    · exact ⟨h.built, h.current, h.log⟩
  | handleUnreserve =>
    obtain rfl := Option.some.inj hstep
    exact ⟨h.built, h.current, h.log⟩
  | step j =>
    obtain ⟨⟨d', e⟩, hj, rfl⟩ := Option.map_eq_some_iff.mp hstep
    exact wellMade_rule h (hmakes j rfl) (rule_of_step hj) hj

theorem wellMade_start : WellMade P made P.start where
  built := .nil
  current := fun o ho => by cases ho
  log := fun e he => absurd he List.not_mem_nil

/-- **The constructor of an object finds something outside**: at some point of the run
the object is the next one to be made, its factory is called, and this is what it
finds. -/
def Made (P : StateTable F I) (is : List (DeviceInput I)) (o : ℕ) (f : F) (x : I) : Prop :=
  ∃ js ks r rest, is = js ++ .step (.exec x) :: ks ∧ P.machine.run P.start js = some r ∧
    r.device.stack = .stateFactory f :: rest ∧ r.device.objects.length = o

/-- **In every run, only what was constructed is installed**, with what its constructor
has found in this run. -/
theorem wellMade_of_run {is : List (DeviceInput I)} {r : DeviceRun F}
    (h : P.machine.run P.start is = some r) : WellMade P (Made P is) r := by
  have hmeets : P.machine.Meets
      (fun s i => ∀ j, i = .step j → Makes (Made P is) s.device j) P.start is := by
    rw [Machine.meets_iff]
    rintro js i s ⟨ks, rfl⟩ hs j rfl x f rest rfl hstack
    refine ⟨js, ks, s, rest, ?_, hs, hstack, rfl⟩
    rw [List.append_assoc, List.singleton_append]
  exact Machine.invariant_of_meets (I := WellMade P (Made P is))
    (fun _ _ _ hr hi hstep => wellMade_step hr hi hstep) wellMade_start hmeets h

end StateTable

/-! ### The classes of a worker -/

namespace Worker

/-- A port of interface 00 is found, and it can be opened. -/
def Opens (x : Outside) : Prop :=
  (∃ d ∈ x.devs, d.1.idUsbInterfaceNum = some "00") ∧ x.answer = .success

/-- The constructor of a `PulseCountState` returns only with its port opened. -/
theorem opens_of_init {x : Outside} (h : Command.raises (code .init .pulseCount x) = false) :
    Opens x := by
  have hinit : Command.raises (pulseCountInit x.devs x.answer) = false := h
  rw [pulseCountInit.eq_def] at hinit
  split at hinit
  · rename_i hany
    obtain ⟨d, hd, hnum⟩ := List.any_eq_true.mp hany
    refine ⟨⟨d, hd, eq_of_beq hnum⟩, ?_⟩
    cases hanswer : x.answer with
    | success => rfl
    | failure | raises =>
      rw [hanswer] at hinit
      cases hinit
  · cases hinit

/-- **What is never there**: in every run of a device, no object that is installed,
exited or given an event or a request is a `UsbipState`, and one that is a
`PulseCountState` was made by a constructor that found its port and could open it. -/
theorem constructed {is : List (DeviceInput Outside)} {r : DeviceRun StateFactory}
    (h : states.machine.run states.start is = some r) {o : ℕ}
    (ho : r.device.current = some o ∨ ∃ e ∈ r.log, e.object = some o) :
    r.device.factoryOf o ≠ some .usbip ∧
      (r.device.factoryOf o = some .pulseCount →
        ∃ x, states.Made is o .pulseCount x ∧ Opens x) := by
  have hmade := StateTable.wellMade_of_run h
  obtain ⟨f, x, hf, hx, hreturns⟩ :
      StateTable.Constructed states (states.Made is) r.device.factoryOf o := by
    rcases ho with hcur | ⟨e, he, heo⟩
    · exact hmade.current o hcur
    · exact hmade.log e he o heo
  refine ⟨fun husbip => ?_, fun hpulse => ⟨x, ?_⟩⟩
  · obtain rfl := Option.some.inj (hf.symm.trans husbip)
    cases hreturns
  · obtain rfl := Option.some.inj (hf.symm.trans hpulse)
    exact ⟨hx, opens_of_init hreturns⟩

/-- The port of a device that counts pulses is found and opened. -/
def pulsePort : Outside :=
  ⟨⟨none, none, none, none⟩, .success, [(⟨none, none, none, some "00"⟩, .success)]⟩

/-- A ready device is reserved as `pulsecount`, flashed and opened. -/
def countsPulses : List (DeviceInput Outside) :=
  pulseReserved ++ [.step (.event true partition)] ++ List.replicate 7 (.step (.exec pulsePort))

theorem countsPulses_run :
    (states.machine.run states.start countsPulses).map
      (fun r => (r.device.current, r.device.factoryOf 5)) = some (some 5, some .pulseCount) := by
  decide +kernel

theorem countsPulses_opens :
    ∃ r, states.machine.run states.start countsPulses = some r ∧
      r.device.factoryOf 5 = some .pulseCount ∧
      ∃ x, states.Made countsPulses 5 .pulseCount x ∧ Opens x := by
  obtain ⟨r, hr, heq⟩ := Option.map_eq_some_iff.mp countsPulses_run
  obtain ⟨hcur, hfac⟩ := Prod.mk.inj heq
  exact ⟨r, hr, hfac, (constructed hr (Or.inl hcur)).2 hfac⟩

end Worker

end UsbipIce
