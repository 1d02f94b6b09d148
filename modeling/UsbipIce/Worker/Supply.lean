import UsbipIce.Worker.Origin
import UsbipIce.Worker.States

/-!
# How often a device can announce itself

A device announces itself where a method writes the status `available`. The
announcements it may still come to are counted by a ration
(`UsbipIce.StateTable.Ration`): what a switch to a class takes (`need`), and
what is left of that once the object is made, to be spent by its own switch
(`hold`). The total over the stack, the pool and the objects that have not
switched never grows by itself, and every announcement takes one of it
(`UsbipIce.StateTable.supply_rule`).

For the classes of a worker a switch to the default firmware is worth one
announcement and a switch to anything a client reserves is worth none
(`UsbipIce.Worker.ration`).
-/

namespace UsbipIce

open Lib

/-- The command announces the device. -/
def Command.announces {F : Type*} : Command F → Bool
  | .updateDeviceStatus st => decide (st = .available)
  | .startTimer _ | .cancelTimer | .switch _ | .returnIfSwitching | .returnIfExiting | .raise =>
    false

namespace StateTable

variable {F I : Type*}

/-- **A ration of announcements** for a table of state classes. -/
structure Ration (P : StateTable F I) where
  /-- What a switch to the factory takes. -/
  need : F → ℕ
  /-- What an object of the factory keeps until it switches. -/
  hold : F → ℕ
  /-- A constructor spends, or leaves to its object, what the switch took. -/
  build : ∀ f x, (P.code .init f x).countP Command.announces + hold f ≤ need f
  /-- No other method announces. -/
  later : ∀ m f x, m ≠ .init → (P.code m f x).countP Command.announces = 0
  /-- A switch of an object takes what it keeps. -/
  switch : ∀ m f x g, .switch g ∈ P.code m f x → need g ≤ hold f
  /-- Timers take nothing. -/
  timer : ∀ g, P.Timed g → need g = 0

namespace Ration

variable {P : StateTable F I} (w : Ration P)

/-- What a call of the thread holding the lock may announce. -/
def ofFrame : Frame F → ℕ
  | .code _ cs => cs.countP Command.announces
  | .stateFactory f => w.need f
  | .handleExit | .install _ | .unlock _ => 0

/-- What a thread of the pool may announce. -/
def ofThread : DeviceThread F → ℕ
  | .flashDefault => w.need P.flashDefault
  | .deviceSwitch f | .stateSwitch _ f => w.need f
  | .timer .. => 0

/-- What an object keeps. -/
def ofObject (obj : StateObject F) : ℕ := if obj.switching then 0 else w.hold obj.factory

/-- **The announcements a device may still come to.** -/
def supply (d : Device F) : ℕ :=
  (d.stack.map w.ofFrame).sum + (d.threads.map w.ofThread).sum + (d.objects.map w.ofObject).sum

theorem sum_objects_set {l : List (StateObject F)} {o : ℕ} {obj : StateObject F}
    (hobj : l[o]? = some obj) (obj' : StateObject F) :
    ((l.set o obj').map w.ofObject).sum + w.ofObject obj =
      (l.map w.ofObject).sum + w.ofObject obj' := by
  rw [sum_map_set w.ofObject hobj, sum_map_eraseIdx w.ofObject hobj]
  omega

/-- An object that does not switch keeps what it had. -/
theorem sum_objects_congr {l : List (StateObject F)} {o : ℕ} {obj : StateObject F}
    (hobj : l[o]? = some obj) (obj' : StateObject F) (hf : obj'.factory = obj.factory)
    (hs : obj'.switching = obj.switching) :
    ((l.set o obj').map w.ofObject).sum = (l.map w.ofObject).sum := by
  have hset := w.sum_objects_set hobj obj'
  have hsame : w.ofObject obj' = w.ofObject obj := by rw [ofObject, ofObject, hf, hs]
  omega

theorem supply_stack_le {d : Device F} {stack : List (Frame F)}
    (h : (stack.map w.ofFrame).sum ≤ (d.stack.map w.ofFrame).sum) :
    w.supply { d with stack := stack } ≤ w.supply d := by
  simp only [supply]
  omega

/-- What a command announces is no longer to come. -/
@[simp] theorem ofFrame_code_cons {o : ℕ} {c : Command F} {cs : List (Command F)} :
    w.ofFrame (.code o (c :: cs)) = w.ofFrame (.code o cs) + if c.announces then 1 else 0 := by
  rw [ofFrame, ofFrame, List.countP_cons]

/-- What an effect takes of the supply. -/
def cost : Option Effect → ℕ
  | some (.status .available) => 1
  | _ => 0

@[simp] theorem cost_status (st : DeviceState) :
    cost (some (.status st)) =
      if (.updateDeviceStatus st : Command F).announces then 1 else 0 := by
  cases st <;> rfl

/-- A command that leaves the factory and the flag of its object alone adds
nothing. -/
theorem supply_command_le {d : Device F} {o : ℕ} {obj obj' : StateObject F} {c : Command F}
    {cs : List (Command F)} {rest : List (Frame F)} (hs : d.stack = .code o (c :: cs) :: rest)
    (hobj : d.objects[o]? = some obj) (hf : obj'.factory = obj.factory)
    (hflag : obj'.switching = obj.switching) :
    w.supply { d with objects := d.objects.set o obj', stack := .code o cs :: rest } ≤
      w.supply d := by
  have hset := w.sum_objects_congr hobj obj' hf hflag
  simp only [supply, hs, List.map_cons, List.sum_cons, w.ofFrame_code_cons (c := c)]
  omega

/-- What an object has kept pays for its switch. -/
theorem supply_switch_le {d : Device F} (h : Origin P d) {o : ℕ} {obj : StateObject F} {f : F}
    {cs : List (Command F)} {rest : List (Frame F)}
    (hs : d.stack = .code o (.switch f :: cs) :: rest) (hobj : d.objects[o]? = some obj)
    (hflag : obj.switching = false) :
    w.supply { d with
      objects := d.objects.set o { obj with switching := true }
      stack := .handleExit :: .stateFactory f :: .code o cs :: rest } ≤ w.supply d := by
  obtain ⟨m, f', y, hf', hcs⟩ := h.stack.of_mem (hs ▸ List.mem_cons_self)
  obtain rfl : obj.factory = f' := Option.some.inj ((factoryOf_of_getElem? hobj).symm.trans hf')
  have hneed : w.need f ≤ w.hold obj.factory := w.switch m _ y f (hcs.subset List.mem_cons_self)
  have hset := w.sum_objects_set hobj { obj with switching := true }
  have hold : w.ofObject obj = w.hold obj.factory := by rw [ofObject, hflag]; rfl
  have hnew : w.ofObject { obj with switching := true } = 0 := rfl
  have hexit : w.ofFrame .handleExit = 0 := rfl
  have hfac : w.ofFrame (.stateFactory f) = w.need f := rfl
  rw [hold, hnew] at hset
  simp only [supply, hs, List.map_cons, List.sum_cons, w.ofFrame_code_cons (c := .switch f)]
  omega

/-- A method that is called on an object already made announces nothing. -/
theorem supply_dispatch_le {d : Device F} (hs : d.stack = []) {m : Method} (hm : m ≠ .init) (f : F)
    (x : I) (o : ℕ) {rest : List (Frame F)} (hrest : (rest.map w.ofFrame).sum = 0) :
    w.supply { d with stack := .code o (P.code m f x) :: rest } ≤ w.supply d := by
  have hzero : w.ofFrame (.code o (P.code m f x)) = 0 := w.later m f x hm
  refine w.supply_stack_le ?_
  rw [hs, List.map_cons, List.sum_cons, hzero, hrest]
  exact le_refl _

/-- A thread enters `Device.switch` with what it may announce. -/
theorem supply_enter_le {d : Device F} {k : ℕ} {t : DeviceThread F} {f : F}
    (hk : d.threads[k]? = some t) (hs : d.stack = []) (ht : w.ofThread t = w.need f) :
    w.supply { d with
      stack := [.handleExit, .stateFactory f]
      threads := advance d.threads k none } ≤ w.supply d := by
  have hold := sum_map_eraseIdx w.ofThread hk
  have hexit : w.ofFrame .handleExit = 0 := rfl
  have hfac : w.ofFrame (.stateFactory f) = w.need f := rfl
  simp only [supply, advance, hs, List.map_cons, List.sum_cons, List.map_nil, List.sum_nil]
  omega

/-- **No rule adds to the supply, and an announcement takes one of it.** -/
theorem supply_rule {i : DeviceStep I} {d d' : Device F} {e : Option Effect} (h : Origin P d)
    (hrule : Rule P d i d' e) : w.supply d' + cost e ≤ w.supply d := by
  cases hrule with
  | pop hs | unlock hs | raise hs =>
    refine w.supply_stack_le ?_
    simp only [hs, List.map_cons, List.map_nil, List.sum_cons, List.sum_nil]
    omega
  | @exit x rest hs =>
    have hcost : cost (d.current.map Effect.exit) = 0 := by cases d.current <;> rfl
    rw [hcost, add_zero]
    refine w.supply_stack_le ?_
    simp only [hs, List.map_cons, List.sum_cons]
    omega
  | @skip x o c cs rest hs =>
    refine w.supply_stack_le ?_
    simp only [hs, List.map_cons, List.sum_cons, w.ofFrame_code_cons (c := c)]
    omega
  | @status x o st cs rest hs =>
    rw [cost_status (F := F)]
    simp only [supply, hs, List.map_cons, List.sum_cons, w.ofFrame_code_cons]
    omega
  | mark hs hobj => exact w.supply_command_le hs hobj rfl rfl
  | startTimer hs hobj => exact w.supply_command_le hs hobj rfl rfl
  | cancelTimer hs hobj => exact w.supply_command_le hs hobj rfl rfl
  | switch hs hobj hflag => exact w.supply_switch_le h hs hobj hflag
  | @build x f rest hs =>
    have hbuild : w.ofFrame (.code d.objects.length (P.code .init f x)) + w.hold f ≤
        w.ofFrame (.stateFactory f) := w.build f x
    have hinst : w.ofFrame (.install d.objects.length) = 0 := rfl
    have hnew : w.ofObject ⟨f, false, false, none⟩ = w.hold f := rfl
    simp only [supply, cost, hs, List.map_cons, List.sum_cons, List.map_append, List.sum_append,
      List.map_nil, List.sum_nil]
    omega
  | @install x o obj rest hs hobj =>
    have hzero : w.ofFrame (.code o (P.code .start obj.factory x)) = 0 :=
      w.later .start obj.factory x (by simp)
    simp only [supply, cost, hs, List.map_cons, List.sum_cons]
    omega
  | idle => exact le_refl _
  | @event add x o obj hs hcur hobj =>
    exact w.supply_dispatch_le hs (by cases add <;> simp [handler]) obj.factory x o rfl
  | @request x o obj hs hcur hobj => exact w.supply_dispatch_le hs (by simp) obj.factory x o rfl
  | @fire o obj f hobj htimer =>
    have hset := w.sum_objects_congr hobj { obj with timer := none } rfl rfl
    have htimer' : w.ofThread (.timer o f) = 0 := rfl
    simp only [supply, cost, List.map_append, List.sum_append, List.map_cons, List.sum_cons,
      List.map_nil, List.sum_nil]
    omega
  | @flashDefault k hk =>
    have hsame : w.ofThread (.deviceSwitch P.flashDefault) = w.ofThread .flashDefault := rfl
    have hold := sum_map_eraseIdx w.ofThread hk
    have hnew := sum_map_set w.ofThread hk (.deviceSwitch P.flashDefault)
    simp only [supply, cost, advance]
    omega
  | deviceSwitch hk hs => exact w.supply_enter_le hk hs rfl
  | stateSwitch hk hs => exact w.supply_enter_le hk hs rfl
  | timerIgnored hk hobj hflag =>
    have hold := sum_map_eraseIdx w.ofThread hk
    simp only [supply, cost, advance]
    omega
  | @timerSwitch k o f obj hk hobj hflag =>
    have hold := sum_map_eraseIdx w.ofThread hk
    have hnew := sum_map_set w.ofThread hk (.stateSwitch o f)
    have hset := w.sum_objects_set hobj { obj with switching := true }
    have hzero : w.ofObject { obj with switching := true } = 0 := rfl
    have hneed : w.ofThread (.stateSwitch o f) = 0 :=
      w.timer f (h.thread _ (List.mem_of_getElem? hk) f rfl)
    simp only [supply, cost, advance]
    omega

/-- What an object keeps is part of the supply. -/
theorem ofObject_le_supply {d : Device F} {o : ℕ} {obj : StateObject F}
    (hobj : d.objects[o]? = some obj) : w.ofObject obj ≤ w.supply d := by
  rw [supply, sum_map_eraseIdx w.ofObject hobj]
  omega

/-- What a thread may announce is part of the supply. -/
theorem ofThread_le_supply {d : Device F} {k : ℕ} {t : DeviceThread F}
    (hk : d.threads[k]? = some t) : w.ofThread t ≤ w.supply d := by
  rw [supply, sum_map_eraseIdx w.ofThread hk]
  omega

/-- A message adds what its handler may announce. -/
theorem supply_threads (d : Device F) (ts : List (DeviceThread F)) :
    w.supply { d with threads := d.threads ++ ts } = w.supply d + (ts.map w.ofThread).sum := by
  simp only [supply, List.map_append, List.sum_append]
  omega

end Ration

end StateTable

namespace Worker

/-! ### The ration of a worker -/

/-- The announcements a switch to a factory leads to at most. -/
def need : StateFactory → ℕ
  | .flash _ next _ => need next
  | .test | .ready => 1
  | .broken | .pulseCountFlasher | .pulseCount | .usbip => 0

/-- The part of them that is left once the object is made. -/
def hold : StateFactory → ℕ
  | .flash _ next _ => need next
  | .test => 1
  | .ready | .broken | .pulseCountFlasher | .pulseCount | .usbip => 0

/-- Timers of a worker lead to `BrokenState`. -/
theorem eq_broken_of_timed {g : StateFactory} (h : states.Timed g) : g = .broken := by
  obtain ⟨m, f, x, hg⟩ := h
  exact (mayDo_of_mem_code hg).2.1

/-- Only the constructor of `ReadyState` announces the device. -/
theorem announces_of_mem_code {m : Method} {f : StateFactory} {x : Outside}
    {c : Command StateFactory} (hc : c ∈ code m f x) (h : c.announces = true) :
    m = .init ∧ f = .ready := by
  match c with
  | .updateDeviceStatus st =>
    obtain rfl : st = .available := of_decide_eq_true h
    obtain ⟨hm, ⟨-, heq⟩ | ⟨hf, -⟩ | ⟨-, heq⟩⟩ := mayDo_of_mem_code hc
    · cases heq
    · exact ⟨hm, hf⟩
    · cases heq
  | .startTimer _ | .cancelTimer | .switch _ | .returnIfSwitching | .returnIfExiting | .raise =>
    cases h

theorem countP_announces_code {m : Method} {f : StateFactory} {x : Outside}
    (h : ¬(m = .init ∧ f = .ready)) : (code m f x).countP Command.announces = 0 :=
  List.countP_eq_zero.mpr fun _ hc hann => h (announces_of_mem_code hc hann)

/-- **The ration of a worker.** -/
def ration : states.Ration where
  need := need
  hold := hold
  build := fun f x => by
    show (code .init f x).countP Command.announces + hold f ≤ need f
    by_cases hf : f = .ready
    · subst hf
      exact le_refl 1
    · rw [countP_announces_code fun h => hf h.2, zero_add]
      cases f <;> simp [hold, need]
  later := fun m f x hm => countP_announces_code fun h => hm h.1
  switch := fun m f x g hg => by
    obtain ⟨-, firmware, next, timeout, rfl, rfl | rfl⟩ | ⟨-, rfl, rfl⟩ | ⟨-, rfl, rfl⟩ |
      ⟨-, rfl, rfl⟩ :=
      mayDo_of_mem_code hg
    · exact le_refl _
    · exact Nat.zero_le _
    · exact le_refl _
    · exact le_refl _
    · exact le_refl _
  timer := fun g hg => by rw [eq_broken_of_timed hg, need]

/-- **A reservation gives a device nothing to announce.** -/
theorem need_reservationStateFac {kind : String} {f : StateFactory}
    (h : reservationStateFac kind = some f) : need f = 0 := by
  rw [reservationStateFac] at h
  split at h
  · obtain rfl := Option.some.inj h
    rfl
  · split at h
    · obtain rfl := Option.some.inj h
      rfl
    · cases h

/-- A new device has its first announcement to come. -/
@[simp] theorem supply_init : ration.supply states.init = 1 := rfl

@[simp] theorem supply_handleReserve (d : Device StateFactory) (kind : String) :
    ration.supply (states.handleReserve d kind) = ration.supply d := by
  rw [StateTable.handleReserve]
  split
  · rfl
  · rename_i f hf
    rw [ration.supply_threads, List.map_singleton, List.sum_singleton]
    exact congrArg (ration.supply d + ·) (need_reservationStateFac hf)

/-- **An `/unreserve` gives a device one announcement to come.** -/
@[simp] theorem supply_handleUnreserve (d : Device StateFactory) :
    ration.supply (states.handleUnreserve d) = ration.supply d + 1 := by
  rw [StateTable.handleUnreserve, ration.supply_threads]
  rfl

end Worker

end UsbipIce
