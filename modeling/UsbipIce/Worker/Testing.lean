import UsbipIce.Worker.Origin
import UsbipIce.Worker.States

/-!
# The verdict of a test

A `TestState` waits for a device file whose firmware answers, and gives up when
its timer runs out. The board shows several files, in any order, and only some of
them print the banner that `check_default` looks for.

`handleAdd` notes that the object is exiting before it has looked at the file, so
only the first file with a name is looked at: where it does not answer, those
after it are not tried, and the board is taken for a broken one. The verdict is
the right one exactly where no file answers, or the first one with a name does
(`UsbipIce.Worker.judges_iff`).

Events are delivered one after the other, each handled until the lock is
released (`UsbipIce.StateTable.Settles`).
-/

namespace UsbipIce

/-! ### One call after the other -/

namespace StateTable

variable {F I : Type*} (P : StateTable F I)

/-- The thread holding the lock goes on until it has released it. -/
inductive Settles : DeviceRun F → DeviceRun F → Prop
  | done {r : DeviceRun F} (h : r.device.stack = []) : Settles r r
  | step {r r₁ r' : DeviceRun F} {y : I} (h : P.runStep r (.step (.exec y)) = some r₁)
      (rest : Settles r₁ r') : Settles r r'

/-- An `add` event is delivered, and handled. -/
def Delivers (r : DeviceRun F) (x : I) (r' : DeviceRun F) : Prop :=
  ∃ r₁, P.runStep r (.step (.event true x)) = some r₁ ∧ P.Settles r₁ r'

/-- Some `add` events are delivered, one after the other. -/
def DeliversAll : DeviceRun F → List I → DeviceRun F → Prop
  | r, [], r' => r' = r
  | r, x :: xs, r' => ∃ r₁, P.Delivers r x r₁ ∧ DeliversAll r₁ xs r'

/-- The timer of object `o` runs out, and its callback switches. -/
def TimerRunsOut (r : DeviceRun F) (o : ℕ) (r' : DeviceRun F) : Prop :=
  ∃ r₁ r₂ r₃, P.runStep r (.step (.fire o)) = some r₁ ∧
    P.runStep r₁ (.step (.thread r.device.threads.length)) = some r₂ ∧
    P.runStep r₂ (.step (.thread r.device.threads.length)) = some r₃ ∧ P.Settles r₃ r'

variable {P} {os : List (StateObject F)} {c : Option ℕ} {s : List (Frame F)}
  {ts : List (DeviceThread F)} {log : List Effect} {r r' : DeviceRun F}

theorem settles_iff_of_nil (h : r.device.stack = []) : P.Settles r r' ↔ r' = r := by
  constructor
  · intro hsettles
    cases hsettles with
    | done => rfl
    | step hstep =>
      rw [runStep, step, exec, h] at hstep
      cases hstep
  · rintro rfl
    exact .done h

/-- **A step that does not depend on what is found outside** may be taken. -/
theorem settles_iff_of_exec [Nonempty I] {d d' : Device F} {e : Option Effect}
    (h : ∀ y, P.exec d y = some (d', e)) :
    P.Settles ⟨d, log⟩ r' ↔ P.Settles ⟨d', e.toList ++ log⟩ r' := by
  have hstep : ∀ y, P.runStep ⟨d, log⟩ (.step (.exec y)) = some ⟨d', e.toList ++ log⟩ := fun y =>
    congrArg (Option.map _) (h y)
  constructor
  · intro hsettles
    cases hsettles with
    | done hnil =>
      obtain ⟨y⟩ := ‹Nonempty I›
      have hnone : P.exec d y = none := by
        rw [exec, show d.stack = [] from hnil]
      rw [h y] at hnone
      cases hnone
    | step hs rest =>
      rw [hstep] at hs
      exact Option.some.inj hs ▸ rest
  · intro hsettles
    obtain ⟨y⟩ := ‹Nonempty I›
    exact .step (hstep y) hsettles

section Steps

variable [Nonempty I]

/-- A method returns. -/
@[simp] theorem settles_pop {o : ℕ} :
    P.Settles ⟨⟨os, c, .code o [] :: s, ts⟩, log⟩ r' ↔ P.Settles ⟨⟨os, c, s, ts⟩, log⟩ r' :=
  settles_iff_of_exec (e := none) fun _ => rfl

@[simp] theorem settles_unlock {o : ℕ} :
    P.Settles ⟨⟨os, c, .unlock o :: s, ts⟩, log⟩ r' ↔ P.Settles ⟨⟨os, c, s, ts⟩, log⟩ r' :=
  settles_iff_of_exec (e := none) fun _ => rfl

/-- A command is run. -/
theorem settles_command {o : ℕ} {obj : StateObject F} (hobj : os[o]? = some obj) {cmd : Command F}
    {cs : List (Command F)} {d' : Device F} {e : Option Effect}
    (h : P.command ⟨os, c, .code o (cmd :: cs) :: s, ts⟩ o obj cs s cmd = (d', e)) :
    P.Settles ⟨⟨os, c, .code o (cmd :: cs) :: s, ts⟩, log⟩ r' ↔
      P.Settles ⟨d', e.toList ++ log⟩ r' := by
  have hexec : ∀ y, P.exec ⟨os, c, .code o (cmd :: cs) :: s, ts⟩ y = some (d', e) := fun y => by
    rw [← h]
    show (os[o]?).map _ = _
    rw [hobj]
    rfl
  exact settles_iff_of_exec hexec

/-- **`Device.switch`**, to a class whose constructor only writes a status. -/
theorem settles_switch {o : ℕ} {f : F} {st : DeviceState}
    (hinit : ∀ y, P.code .init f y = [.updateDeviceStatus st])
    (hstart : ∀ y, P.code .start f y = []) :
    P.Settles ⟨⟨os, some o, .handleExit :: .stateFactory f :: s, ts⟩, log⟩ r' ↔
      P.Settles ⟨⟨os ++ [⟨f, false, false, none⟩], some os.length, s, ts⟩,
        .start os.length :: .status st :: .exit o :: log⟩ r' := by
  have hnew : (os ++ [⟨f, false, false, none⟩])[os.length]? =
      some (⟨f, false, false, none⟩ : StateObject F) := List.getElem?_concat_length
  have hexit : ∀ y, P.exec ⟨os, some o, .handleExit :: .stateFactory f :: s, ts⟩ y =
      some (⟨os, some o, .stateFactory f :: s, ts⟩, some (.exit o)) := fun _ => rfl
  have hbuild : ∀ y, P.exec ⟨os, some o, .stateFactory f :: s, ts⟩ y =
      some (⟨os ++ [⟨f, false, false, none⟩], some o,
        .code os.length [.updateDeviceStatus st] :: .install os.length :: s, ts⟩, none) :=
    fun y => by rw [← hinit y]; rfl
  have hinstall : ∀ y, P.exec ⟨os ++ [⟨f, false, false, none⟩], some o,
        .install os.length :: s, ts⟩ y =
      some (⟨os ++ [⟨f, false, false, none⟩], some os.length, .code os.length [] :: s, ts⟩,
        some (.start os.length)) := fun y => by
    show ((os ++ [⟨f, false, false, none⟩])[os.length]?).map _ = _
    rw [hnew, Option.map_some, hstart]
  rw [settles_iff_of_exec hexit, settles_iff_of_exec hbuild, settles_command hnew rfl, settles_pop,
    settles_iff_of_exec hinstall, settles_pop]
  rfl

end Steps

/-- **An event is delivered** to the current object, where the lock is free. -/
theorem delivers_iff {o : ℕ} {obj : StateObject F} (hobj : os[o]? = some obj) {x : I} :
    P.Delivers ⟨⟨os, some o, [], ts⟩, log⟩ x r' ↔
      P.Settles ⟨⟨os, some o, [.code o (P.code .handleAdd obj.factory x), .unlock o], ts⟩,
        .dispatch .handleAdd o :: log⟩ r' := by
  have hevent : P.runStep ⟨⟨os, some o, [], ts⟩, log⟩ (.step (.event true x)) =
      some ⟨⟨os, some o, [.code o (P.code .handleAdd obj.factory x), .unlock o], ts⟩,
        .dispatch .handleAdd o :: log⟩ := by
    show (Option.map _ (Option.map _ os[o]?)) = _
    rw [hobj]
    rfl
  constructor
  · rintro ⟨r₁, h, hsettles⟩
    rw [hevent] at h
    exact Option.some.inj h ▸ hsettles
  · exact fun hsettles => ⟨_, hevent, hsettles⟩

/-- **A timer runs out** while nothing is going on: its callback switches. -/
theorem timerRunsOut_iff [Nonempty I] {o c : ℕ} {g f : F} {exiting : Bool} {st : DeviceState}
    (hobj : os[o]? = some ⟨g, false, exiting, some f⟩)
    (hinit : ∀ y, P.code .init f y = [.updateDeviceStatus st])
    (hstart : ∀ y, P.code .start f y = []) :
    P.TimerRunsOut ⟨⟨os, some c, [], ts⟩, log⟩ o r' ↔
      r' =
        ⟨⟨os.set o ⟨g, true, exiting, none⟩ ++ [⟨f, false, false, none⟩], some os.length, [], ts⟩,
        .start os.length :: .status st :: .exit c :: log⟩ := by
  have hlt : o < os.length := (List.getElem?_eq_some_iff.mp hobj).1
  have hfire : P.runStep ⟨⟨os, some c, [], ts⟩, log⟩ (.step (.fire o)) =
      some ⟨⟨os.set o ⟨g, false, exiting, none⟩, some c, [], ts ++ [.timer o f]⟩, log⟩ := by
    simp only [runStep, step, hobj]
    rfl
  have hcallback : P.runStep ⟨⟨os.set o ⟨g, false, exiting, none⟩, some c, [],
      ts ++ [.timer o f]⟩, log⟩ (.step (.thread ts.length)) =
      some ⟨⟨os.set o ⟨g, true, exiting, none⟩, some c, [], ts ++ [.stateSwitch o f]⟩, log⟩ := by
    have hobj' : (os.set o ⟨g, false, exiting, none⟩)[o]? =
        some (⟨g, false, exiting, none⟩ : StateObject F) := List.getElem?_set_self hlt
    simp only [runStep, step, List.getElem?_concat_length, Option.bind_some, thread, hobj']
    simp
  have hswitch : P.runStep ⟨⟨os.set o ⟨g, true, exiting, none⟩, some c, [],
      ts ++ [.stateSwitch o f]⟩, log⟩ (.step (.thread ts.length)) =
      some ⟨⟨os.set o ⟨g, true, exiting, none⟩, some c, [.handleExit, .stateFactory f], ts⟩,
        log⟩ := by
    simp only [runStep, step, List.getElem?_concat_length, Option.bind_some, thread]
    simp [List.eraseIdx_append_of_length_le (Nat.le_refl ts.length)]
  have hsettles : P.Settles ⟨⟨os.set o ⟨g, true, exiting, none⟩, some c,
      [.handleExit, .stateFactory f], ts⟩, log⟩ r' ↔
      r' =
        ⟨⟨os.set o ⟨g, true, exiting, none⟩ ++ [⟨f, false, false, none⟩], some os.length, [], ts⟩,
        .start os.length :: .status st :: .exit c :: log⟩ := by
    rw [settles_switch hinit hstart, settles_iff_of_nil rfl, List.length_set]
  rw [← hsettles]
  constructor
  · rintro ⟨r₁, r₂, r₃, h₁, h₂, h₃, hdone⟩
    rw [hfire] at h₁
    obtain rfl := Option.some.inj h₁
    rw [hcallback] at h₂
    obtain rfl := Option.some.inj h₂
    rw [hswitch] at h₃
    obtain rfl := Option.some.inj h₃
    exact hdone
  · exact fun hdone => ⟨_, _, _, hfire, hcallback, hswitch, hdone⟩

/-- What every event keeps, the events keep. -/
theorem exists_deliversAll {Q : DeviceRun F → Prop}
    (h : ∀ r x, Q r → ∃ r₁, (∀ r', P.Delivers r x r' ↔ r' = r₁) ∧ Q r₁) (xs : List I)
    (hr : Q r) : ∃ r₁, (∀ r', P.DeliversAll r xs r' ↔ r' = r₁) ∧ Q r₁ := by
  induction xs generalizing r with
  | nil => exact ⟨r, fun _ => Iff.rfl, hr⟩
  | cons x xs ih =>
    obtain ⟨r₁, hdelivers, hr₁⟩ := h r x hr
    obtain ⟨r₂, hall, hr₂⟩ := ih hr₁
    refine ⟨r₂, fun r' => ?_, hr₂⟩
    simp only [DeliversAll, hdelivers, exists_eq_left, hall]

end StateTable

namespace Worker

open StateTable

/-! ### The events of a test -/

/-- The event has a `DEVNAME`. -/
def Outside.named (x : Outside) : Bool := !x.dev.unnamed

/-- The event's path passes `check_default`. -/
def Outside.passes (x : Outside) : Bool :=
  match x.answer with
  | .success => x.named
  | .failure | .raises => false

/-- Object `o` is the current one, a `TestState` whose timer waits, and nothing is
going on; `looked` is its `exiting` flag. -/
structure Waits (r : DeviceRun StateFactory) (o : ℕ) (looked : Bool) : Prop where
  stack : r.device.stack = []
  current : r.device.current = some o
  object : r.device.objects[o]? = some ⟨.test, false, looked, some .broken⟩

/-- Nothing is going on, the current object is one of the factory, and object `o`
waits for nothing any more. -/
structure Rests (r : DeviceRun StateFactory) (o : ℕ) (f : StateFactory) : Prop where
  stack : r.device.stack = []
  current : ∃ n, r.device.current = some n ∧ r.device.factoryOf n = some f
  timer : r.device.timerOf o = none

/-- How often an object has been installed. -/
def switches (r : DeviceRun StateFactory) : ℕ :=
  r.log.countP fun e => match e with | .start _ => true | _ => false

variable {r r' : DeviceRun StateFactory} {o : ℕ} {x : Outside}

instance : Nonempty Outside := ⟨⟨⟨none, none, none, none⟩, .failure, []⟩⟩

/-- An event that is not looked at changes nothing. -/
theorem delivers_of_ignored {looked : Bool} (h : Waits r o looked)
    (hx : x.named = false ∨ looked = true) :
    states.Delivers r x r' ↔ r' = ⟨r.device, .dispatch .handleAdd o :: r.log⟩ := by
  obtain ⟨⟨os, c, s, ts⟩, log⟩ := r
  obtain ⟨rfl, rfl, hobj⟩ := h
  rw [delivers_iff hobj]
  show states.Settles
    ⟨⟨os, some o, [.code o (testHandleAdd x.dev x.answer), .unlock o], ts⟩, _⟩ r' ↔ _
  by_cases hnamed : x.dev.unnamed = true
  · rw [testHandleAdd.eq_def, if_pos hnamed, settles_pop, settles_unlock, settles_iff_of_nil rfl]
  · have hlooked : looked = true := by
      refine hx.resolve_left fun h => hnamed ?_
      rw [Outside.named] at h
      simpa using h
    subst hlooked
    have hreturns : ∀ cs, states.Settles
        ⟨⟨os, some o, [.code o (.returnIfExiting :: cs), .unlock o], ts⟩,
          .dispatch .handleAdd o :: log⟩ r' ↔
        r' = ⟨⟨os, some o, [], ts⟩, .dispatch .handleAdd o :: log⟩ := fun cs => by
      rw [settles_command (e := none) hobj rfl, settles_unlock, settles_iff_of_nil rfl]
      rfl
    rw [testHandleAdd.eq_def, if_neg hnamed]
    split <;> exact hreturns _

/-- The first event with a name, where the file does not answer. -/
theorem delivers_of_failed (h : Waits r o false) (hnamed : x.named = true)
    (hfails : x.passes = false) :
    states.Delivers r x r' ↔
      r' = ⟨{ r.device with objects := r.device.objects.set o ⟨.test, false, true, some .broken⟩ },
        .dispatch .handleAdd o :: r.log⟩ := by
  obtain ⟨⟨os, c, s, ts⟩, log⟩ := r
  obtain ⟨rfl, rfl, hobj⟩ := h
  have hunnamed : ¬(x.dev.unnamed = true) := by
    rw [Outside.named] at hnamed
    simpa using hnamed
  have hcode : testHandleAdd x.dev x.answer = [.returnIfExiting] := by
    rw [testHandleAdd.eq_def, if_neg hunnamed]
    cases hanswer : x.answer with
    | success =>
      rw [Outside.passes, hanswer, hnamed] at hfails
      cases hfails
    | failure => rfl
    | raises => rfl
  rw [delivers_iff hobj]
  show states.Settles
    ⟨⟨os, some o, [.code o (testHandleAdd x.dev x.answer), .unlock o], ts⟩, _⟩ r' ↔ _
  rw [hcode, settles_command (e := none) hobj rfl, settles_pop, settles_unlock,
    settles_iff_of_nil rfl]
  rfl

/-- The first event with a name, where the file answers: the device switches. -/
theorem delivers_of_passed (h : Waits r o false) (hpasses : x.passes = true) :
    states.Delivers r x r' ↔
      r' = ⟨⟨r.device.objects.set o ⟨.test, true, true, none⟩ ++ [⟨.ready, false, false, none⟩],
          some r.device.objects.length, [], r.device.threads⟩,
        .start r.device.objects.length :: .status .available :: .exit o ::
          .dispatch .handleAdd o :: r.log⟩ := by
  obtain ⟨⟨os, c, s, ts⟩, log⟩ := r
  obtain ⟨rfl, rfl, hobj⟩ := h
  have hcode : testHandleAdd x.dev x.answer = [.returnIfExiting, .cancelTimer, .switch .ready] := by
    rw [testHandleAdd.eq_def]
    cases hanswer : x.answer with
    | success =>
      rw [Outside.passes, hanswer, Outside.named] at hpasses
      rw [if_neg (by simpa using hpasses)]
    | failure =>
      rw [Outside.passes, hanswer] at hpasses
      cases hpasses
    | raises =>
      rw [Outside.passes, hanswer] at hpasses
      cases hpasses
  have hlt : o < os.length := (List.getElem?_eq_some_iff.mp hobj).1
  have hset : ∀ (os' : List (StateObject StateFactory)) obj, os'.length = os.length →
      (os'.set o obj)[o]? = some obj := fun os' obj hlen =>
    List.getElem?_set_self (hlen ▸ hlt)
  rw [delivers_iff hobj]
  show states.Settles
    ⟨⟨os, some o, [.code o (testHandleAdd x.dev x.answer), .unlock o], ts⟩, _⟩ r' ↔ _
  have hinit : ∀ y, states.code .init .ready y = [.updateDeviceStatus .available] := fun _ => rfl
  have hstart : ∀ y, states.code .start .ready y = [] := fun _ => rfl
  rw [hcode, settles_command (e := none) hobj rfl, settles_command (e := none)
    (hset os _ rfl) rfl, settles_command (e := none) (hset (os.set o _) _ List.length_set) rfl,
    settles_switch hinit hstart, settles_pop, settles_unlock, settles_iff_of_nil rfl,
    List.set_set, List.set_set, List.length_set]
  rfl

/-- A `ReadyState` does nothing about an event. -/
theorem delivers_of_rests (h : Rests r o .ready) :
    ∃ n, ∀ r', states.Delivers r x r' ↔ r' = ⟨r.device, .dispatch .handleAdd n :: r.log⟩ := by
  obtain ⟨⟨os, c, s, ts⟩, log⟩ := r
  obtain ⟨rfl, ⟨n, rfl, hfactory⟩, -⟩ := h
  obtain ⟨obj, hobj, hready⟩ := Option.map_eq_some_iff.mp hfactory
  refine ⟨n, fun r' => ?_⟩
  have hcode : states.code .handleAdd obj.factory x = [] := by rw [hready]; rfl
  rw [delivers_iff hobj, hcode, settles_pop, settles_unlock, settles_iff_of_nil rfl]

/-- **The timer runs out** while the object waits: the device is taken for a broken
one. -/
theorem timerRunsOut_of_waits {looked : Bool} (h : Waits r o looked) :
    states.TimerRunsOut r o r' ↔
      r' = ⟨⟨r.device.objects.set o ⟨.test, true, looked, none⟩ ++ [⟨.broken, false, false, none⟩],
          some r.device.objects.length, [], r.device.threads⟩,
        .start r.device.objects.length :: .status .broken :: .exit o :: r.log⟩ := by
  obtain ⟨⟨os, c, s, ts⟩, log⟩ := r
  obtain ⟨rfl, rfl, hobj⟩ := h
  have hinit : ∀ y, states.code .init .broken y = [.updateDeviceStatus .broken] := fun _ => rfl
  have hstart : ∀ y, states.code .start .broken y = [] := fun _ => rfl
  exact timerRunsOut_iff hobj hinit hstart

/-! ### Whole sequences of events -/

@[simp] theorem switches_start (d : Device StateFactory) (n : ℕ) (log : List Effect) :
    switches ⟨d, .start n :: log⟩ = switches ⟨d, log⟩ + 1 :=
  List.countP_cons_of_pos rfl

/-- Once the object has looked at a file, no event changes anything. -/
theorem deliversAll_of_looked (h : Waits r o true) (xs : List Outside) :
    ∃ r₁, (∀ r', states.DeliversAll r xs r' ↔ r' = r₁) ∧ Waits r₁ o true ∧
      switches r₁ = switches r := by
  refine exists_deliversAll (fun r' x hr' => ?_) xs ⟨h, rfl⟩
  exact ⟨_, fun _ => delivers_of_ignored hr'.1 (Or.inr rfl),
    ⟨hr'.1.stack, hr'.1.current, hr'.1.object⟩, hr'.2⟩

/-- Nor does one once the device has switched. -/
theorem deliversAll_of_rests (h : Rests r o .ready) (xs : List Outside) :
    ∃ r₁, (∀ r', states.DeliversAll r xs r' ↔ r' = r₁) ∧ Rests r₁ o .ready ∧
      switches r₁ = switches r := by
  refine exists_deliversAll (fun r' x hr' => ?_) xs ⟨h, rfl⟩
  obtain ⟨n, hn⟩ := delivers_of_rests hr'.1
  exact ⟨_, hn, ⟨hr'.1.stack, hr'.1.current, hr'.1.timer⟩, hr'.2⟩

theorem deliversAll_cons {xs : List Outside} {r₁ r₂ : DeviceRun StateFactory}
    (h : ∀ r', states.Delivers r x r' ↔ r' = r₁)
    (hall : ∀ r', states.DeliversAll r₁ xs r' ↔ r' = r₂) (r' : DeviceRun StateFactory) :
    states.DeliversAll r (x :: xs) r' ↔ r' = r₂ := by
  simp only [DeliversAll, h, exists_eq_left, hall]

/-- The object that has switched, and the one it has switched to. -/
theorem rests_switched {os : List (StateObject StateFactory)}
    {ts : List (DeviceThread StateFactory)}
    {log : List Effect} {looked : Bool} {f : StateFactory} (hlt : o < os.length) :
    Rests ⟨⟨os.set o ⟨.test, true, looked, none⟩ ++ [⟨f, false, false, none⟩], some os.length, [],
      ts⟩, log⟩ o f where
  stack := rfl
  current := by
    refine ⟨os.length, rfl, ?_⟩
    have hlen : (os.set o ⟨.test, true, looked, none⟩).length = os.length := List.length_set
    rw [Device.factoryOf, ← hlen, List.getElem?_concat_length]
    rfl
  timer := by
    have hset : (os.set o ⟨.test, true, looked, none⟩)[o]? =
        some (⟨.test, true, looked, none⟩ : StateObject StateFactory) := List.getElem?_set_self hlt
    rw [Device.timerOf, List.getElem?_append_left (by rw [List.length_set]; exact hlt), hset]
    rfl

theorem Waits.lt {looked : Bool} (h : Waits r o looked) : o < r.device.objects.length :=
  (List.getElem?_eq_some_iff.mp h.object).1

/-- **The first event with a name decides.** -/
theorem deliversAll_spec (h : Waits r o false) (xs : List Outside) :
    ∃ r₁, (∀ r', states.DeliversAll r xs r' ↔ r' = r₁) ∧
      match xs.find? Outside.named with
      | none => Waits r₁ o false ∧ switches r₁ = switches r
      | some x =>
        if x.passes then Rests r₁ o .ready ∧ switches r₁ = switches r + 1
        else Waits r₁ o true ∧ switches r₁ = switches r := by
  induction xs generalizing r with
  | nil => exact ⟨r, fun _ => Iff.rfl, h, rfl⟩
  | cons x xs ih =>
    by_cases hnamed : x.named = true
    · rw [List.find?_cons_of_pos hnamed]
      by_cases hpasses : x.passes = true
      · have hswitched : Rests ⟨⟨r.device.objects.set o ⟨.test, true, true, none⟩ ++
            [⟨.ready, false, false, none⟩], some r.device.objects.length, [], r.device.threads⟩,
            .start r.device.objects.length :: .status .available :: .exit o ::
              .dispatch .handleAdd o :: r.log⟩ o .ready := rests_switched h.lt
        obtain ⟨r₁, hall, hrests, hcount⟩ := deliversAll_of_rests hswitched xs
        refine ⟨r₁, deliversAll_cons (fun _ => delivers_of_passed h hpasses) hall, ?_⟩
        show if x.passes = true then _ else _
        rw [if_pos hpasses]
        refine ⟨hrests, hcount.trans ?_⟩
        exact (switches_start ..).trans (congrArg (· + 1) rfl)
      · have hfails : x.passes = false := Bool.eq_false_iff.mpr hpasses
        have hlooked : Waits ⟨{ r.device with
            objects := r.device.objects.set o ⟨.test, false, true, some .broken⟩ },
            .dispatch .handleAdd o :: r.log⟩ o true :=
          ⟨h.stack, h.current, List.getElem?_set_self h.lt⟩
        obtain ⟨r₁, hall, hwaits, hcount⟩ := deliversAll_of_looked hlooked xs
        refine ⟨r₁, deliversAll_cons (fun _ => delivers_of_failed h hnamed hfails) hall, ?_⟩
        show if x.passes = true then _ else _
        rw [if_neg hpasses]
        exact ⟨hwaits, hcount⟩
    · have hwaits : Waits ⟨r.device, .dispatch .handleAdd o :: r.log⟩ o false :=
        ⟨h.stack, h.current, h.object⟩
      obtain ⟨r₁, hall, hspec⟩ := ih hwaits
      have hignored : x.named = false ∨ false = true := Or.inl (Bool.eq_false_iff.mpr hnamed)
      refine ⟨r₁, deliversAll_cons (fun _ => delivers_of_ignored h hignored) hall, ?_⟩
      rw [List.find?_cons_of_neg hnamed]
      exact hspec

/-! ### The verdict -/

/-- **The verdict on a device**: where one of its files answers, it is taken for a
ready one, and its timer does not run out any more; otherwise it is taken for a
broken one when the timer runs out. There is one switch either way. -/
structure Judged (r : DeviceRun StateFactory) (o : ℕ) (xs : List Outside)
    (r' : DeviceRun StateFactory) : Prop where
  ready : (∃ x ∈ xs, x.passes = true) →
    Rests r' o .ready ∧ switches r' = switches r + 1 ∧ ∀ r'', ¬states.TimerRunsOut r' o r''
  broken : (∀ x ∈ xs, x.passes = false) →
    switches r' = switches r ∧ (∃ r'', states.TimerRunsOut r' o r'') ∧
      ∀ r'', states.TimerRunsOut r' o r'' → Rests r'' o .broken ∧ switches r'' = switches r + 1

theorem named_of_passes (h : x.passes = true) : x.named = true := by
  rw [Outside.passes] at h
  split at h
  · exact h
  · cases h
  · cases h

/-- No timer runs out that was cancelled. -/
theorem Rests.not_timerRunsOut {f : StateFactory} (h : Rests r o f) (r'' : DeviceRun StateFactory) :
    ¬states.TimerRunsOut r o r'' := by
  rintro ⟨r₁, r₂, r₃, hfire, -⟩
  obtain ⟨d, log⟩ := r
  have htimer : d.timerOf o = none := h.timer
  rw [Device.timerOf] at htimer
  cases hobj : d.objects[o]? with
  | none =>
    simp only [runStep, step, hobj] at hfire
    cases hfire
  | some obj =>
    obtain ⟨g, switching, exiting, timer⟩ := obj
    rw [hobj] at htimer
    obtain rfl : timer = none := htimer
    simp only [runStep, step, hobj] at hfire
    cases hfire

/-- A `TestState` that waits is taken for a broken one when its timer runs out. -/
theorem Waits.judged {looked : Bool} {r₀ : DeviceRun StateFactory} {xs : List Outside}
    (h : Waits r o looked) (hcount : switches r = switches r₀)
    (hnone : ∀ x ∈ xs, x.passes = false) : Judged r₀ o xs r where
  ready := by
    rintro ⟨x, hx, hpasses⟩
    exact absurd ((hnone x hx).symm.trans hpasses) Bool.false_ne_true
  broken := by
    refine fun _ => ⟨hcount, ⟨_, timerRunsOut_of_waits h |>.mpr rfl⟩, fun r'' hruns => ?_⟩
    obtain rfl := (timerRunsOut_of_waits h).mp hruns
    refine ⟨rests_switched h.lt, (switches_start ..).trans (congrArg (· + 1) ?_)⟩
    exact hcount

/-- **The verdict on some events** is the right one exactly where none of them
answers, or the first one with a name does. -/
theorem judged_iff (h : Waits r o false) (xs : List Outside)
    (hall : ∀ r'', states.DeliversAll r xs r'' ↔ r'' = r') :
    Judged r o xs r' ↔
      ∀ x, xs.find? Outside.named = some x → (∃ y ∈ xs, y.passes = true) → x.passes = true := by
  obtain ⟨r₁, hall₁, hspec⟩ := deliversAll_spec h xs
  obtain rfl : r' = r₁ := (hall₁ r').mp ((hall r').mpr rfl)
  cases hfind : xs.find? Outside.named with
  | none =>
    rw [hfind] at hspec
    have hnone : ∀ x ∈ xs, x.passes = false := fun x hx => Bool.eq_false_iff.mpr fun hpasses =>
      List.find?_eq_none.mp hfind x hx (named_of_passes hpasses)
    exact iff_of_true (hspec.1.judged hspec.2 hnone) fun _ hx => absurd hx (by simp)
  | some x =>
    rw [hfind] at hspec
    change if x.passes = true then _ else _ at hspec
    by_cases hpasses : x.passes = true
    · rw [if_pos hpasses] at hspec
      obtain ⟨hrests, hcount⟩ := hspec
      refine iff_of_true ⟨fun _ => ⟨hrests, hcount, hrests.not_timerRunsOut⟩, fun hnone => ?_⟩ ?_
      · have hx : x ∈ xs := List.mem_of_find?_eq_some hfind
        exact absurd ((hnone x hx).symm.trans hpasses) Bool.false_ne_true
      · rintro y hy -
        exact Option.some.inj hy ▸ hpasses
    · rw [if_neg hpasses] at hspec
      obtain ⟨hwaits, hcount⟩ := hspec
      constructor
      · rintro hjudged y hy hsome
        -- the object has not switched, though a later file answers
        obtain ⟨-, hswitched, -⟩ := hjudged.ready hsome
        omega
      · intro hcond
        refine hwaits.judged hcount fun y hy => Bool.eq_false_iff.mpr fun hy' => hpasses ?_
        exact hcond x rfl ⟨y, hy, hy'⟩

/-- **When a test judges right.** A `TestState` that waits gives the right verdict
on some events, and on all that begin them, if and only if none of them answers
or the first one with a name does: it looks at one file only. -/
theorem judges_iff (h : Waits r o false) (xs : List Outside) :
    (∀ ys, ys <+: xs → (∃ r', states.DeliversAll r ys r') ∧
      ∀ r', states.DeliversAll r ys r' → Judged r o ys r') ↔
      ∀ x, xs.find? Outside.named = some x → (∃ y ∈ xs, y.passes = true) → x.passes = true := by
  constructor
  · intro hjudges
    obtain ⟨r₁, hall, -⟩ := deliversAll_spec h xs
    exact (judged_iff h xs hall).mp ((hjudges xs List.prefix_rfl).2 r₁ ((hall r₁).mpr rfl))
  · intro hcond ys hys
    obtain ⟨r₁, hall, -⟩ := deliversAll_spec h ys
    refine ⟨⟨r₁, (hall r₁).mpr rfl⟩, fun r' hr' => ?_⟩
    obtain rfl := (hall r').mp hr'
    refine (judged_iff h ys hall).mpr fun x hx hsome => ?_
    obtain ⟨zs, rfl⟩ := hys
    obtain ⟨y, hy, hpasses⟩ := hsome
    refine hcond x ?_ ⟨y, List.mem_append_left _ hy, hpasses⟩
    rw [List.find?_append, hx]
    rfl

/-- A device whose `TestState` waits. -/
def tested : DeviceRun StateFactory := ⟨⟨[⟨.test, false, false, some .broken⟩], some 0, [], []⟩, []⟩

/-- The disk of a board, which prints nothing. -/
def diskAdded : Outside := ⟨⟨some "/dev/sda", some "block", some "disk", none⟩, .failure, []⟩

/-- The port of a board, which prints the banner. -/
def portAdded : Outside := ⟨⟨some "/dev/ttyACM0", some "tty", none, some "00"⟩, .success, []⟩

theorem waits_tested : Waits tested 0 false := ⟨rfl, rfl, rfl⟩

theorem judges_tested :
    [portAdded, diskAdded].find? Outside.named = some portAdded ∧
      ∀ ys, ys <+: [portAdded, diskAdded] → (∃ r', states.DeliversAll tested ys r') ∧
        ∀ r', states.DeliversAll tested ys r' → Judged tested 0 ys r' := by
  have hfirst : [portAdded, diskAdded].find? Outside.named = some portAdded := rfl
  refine ⟨hfirst, (judges_iff waits_tested [portAdded, diskAdded]).mpr fun x hx _ => ?_⟩
  obtain rfl : portAdded = x := Option.some.inj hx
  rfl

/-- The disk comes first, and the board is never found ready. -/
theorem disk_before_port :
    ¬∀ ys, ys <+: [diskAdded, portAdded] → (∃ r', states.DeliversAll tested ys r') ∧
      ∀ r', states.DeliversAll tested ys r' → Judged tested 0 ys r' := by
  intro hjudges
  obtain ⟨hreaches, hjudged⟩ := hjudges _ List.prefix_rfl
  obtain ⟨r', hr'⟩ := hreaches
  obtain ⟨r₁, hall, -, hcount⟩ := deliversAll_spec waits_tested [diskAdded, portAdded]
  obtain rfl := (hall r').mp hr'
  have hsome : ∃ x ∈ [diskAdded, portAdded], x.passes = true := ⟨portAdded, by simp, rfl⟩
  obtain ⟨-, hswitched, -⟩ := (hjudged _ hr').ready hsome
  omega

end Worker

end UsbipIce
