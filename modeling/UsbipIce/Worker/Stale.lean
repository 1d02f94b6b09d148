import UsbipIce.Worker.Lifecycle
import UsbipIce.Worker.Shape

/-!
# Switches of replaced objects

`AbstractState.switch` promises that after an object's first call of `switch`
the later ones are ignored. The flag behind this is set by the call itself, and
`handleReserve` and `handleUnreserve` replace an object without one: a timer
the object started in its constructor may still be waiting, and its callback
then replaces whatever state a later client is using
(`UsbipIce.Worker.staleTimer_switches`).

Timers apart, the flag is enough. If the device itself enters `switch` only
where the object it is about to replace has nothing left that could switch
(`UsbipIce.StateTable.Patient`), no object that has been replaced ever enters
`switch` again (`UsbipIce.Worker.replaced_never_switches`).
-/

namespace UsbipIce

open Lib

/-! ### What an object may still do -/

namespace DeviceThread

variable {F : Type*}

/-- The factory for which the device itself is about to enter `switch`. -/
def entersFor : DeviceThread F → Option F
  | .deviceSwitch f => some f
  | .timer .. | .stateSwitch .. | .flashDefault => none

/-- The thread is about to call `switch` for a timer of the object. -/
def calls (o : ℕ) : DeviceThread F → Bool
  | .timer o' _ => decide (o' = o)
  | .stateSwitch .. | .flashDefault | .deviceSwitch _ => false

end DeviceThread

/-- The command calls `switch`. -/
def Command.switches {F : Type*} : Command F → Bool
  | .switch _ => true
  | .updateDeviceStatus _ | .startTimer _ | .cancelTimer => false
  | .returnIfSwitching | .returnIfExiting | .raise => false

/-- The call is in a method of the object that goes on to call `switch`. -/
def Frame.switches {F : Type*} (o : ℕ) : Frame F → Bool
  | .code o' cs => decide (o' = o) && cs.any Command.switches
  | .handleExit | .stateFactory _ | .install _ | .unlock _ => false

namespace Device

variable {F : Type*}

/-- The object can still come to its first call of `switch`. -/
def Lively (d : Device F) (o : ℕ) : Prop :=
  (d.timerOf o).isSome ∨ (∃ t ∈ d.threads, t.calls o) ∨ ∃ x ∈ d.stack, x.switches o

/-- **An object that is done with switching**: no call of its `switch` waits
for the lock, and its flag is set or it will not call `switch`. -/
def Done (d : Device F) (o : ℕ) : Prop :=
  (∀ t ∈ d.threads, ¬t.waits o) ∧ (d.flagOf o ∨ ¬d.Lively o)

instance (d : Device F) (o : ℕ) : Decidable (d.Lively o) := inferInstanceAs (Decidable (_ ∨ _))

instance (d : Device F) (o : ℕ) : Decidable (d.Done o) := inferInstanceAs (Decidable (_ ∧ _))

end Device

namespace StateTable

variable {F I : Type*} {P : StateTable F I} {d : Device F} {log : List Effect}

/-! ### Objects that are done -/

theorem done_mono {d' : Device F} {o : ℕ} (h : d.Done o)
    (hwaits : ∀ t ∈ d'.threads, t.waits o = true → t ∈ d.threads)
    (hflag : d.flagOf o = true → d'.flagOf o = true) (hlively : d'.Lively o → d.Lively o) :
    d'.Done o :=
  ⟨fun t ht hw => h.1 t (hwaits t ht hw) hw, h.2.imp hflag fun hno hl => hno (hlively hl)⟩

/-- **What the patient runs keep besides**: an object that is neither being
made nor current is done, and so is the current one once its successor is on
its way. -/
structure Timely (d : Device F) (log : List Effect) : Prop where
  started : ∀ o, d.current = some o → .start o ∈ log
  done : ∀ o, d.Done o ∨ .install o ∈ d.stack ∨ d.current = some o
  yielding : (∃ y ∈ d.stack, y.InSwitch) → ∀ o, d.current = some o → d.Done o

/-- **The device waits for its object**: where `handleReserve` or
`handleUnreserve` enters `Device.switch`, the current object is done with
switching. -/
def Patient (r : DeviceRun F) : DeviceInput I → Prop
  | .step (.thread k) => ∀ f ∈ (r.device.threads[k]?).bind DeviceThread.entersFor,
      ∀ o ∈ r.device.current, r.device.Done o
  | .step _ | .handleReserve _ | .handleUnreserve => True

/-- A step that wakes nobody up. -/
theorem Timely.mono (h : Timely d log) {d' : Device F} (hcur : d'.current = d.current)
    (hdone : ∀ o, d.Done o → d'.Done o)
    (hinst : ∀ o, .install o ∈ d.stack → .install o ∈ d'.stack)
    (hsw : (∃ y ∈ d'.stack, y.InSwitch) → ∃ y ∈ d.stack, y.InSwitch) : Timely d' log where
  started := fun o ho => h.started o (hcur ▸ ho)
  done := fun o => (h.done o).imp (hdone o) (Or.imp (hinst o) fun ho => hcur ▸ ho)
  yielding := fun hy o ho => hdone o (h.yielding (hsw hy) o (hcur ▸ ho))

theorem Timely.log_mono (h : Timely d log) {log' : List Effect}
    (hlog : ∀ o, .start o ∈ log → .start o ∈ log') : Timely d log' :=
  { h with started := fun o ho => hlog o (h.started o ho) }

/-- An object that comes to its first call of `switch` is current, or being
made. -/
theorem Timely.install_or_current (h : Timely d log) {o : ℕ} (hflag : d.flagOf o = false)
    (hlively : d.Lively o) : .install o ∈ d.stack ∨ d.current = some o := by
  refine (h.done o).resolve_left fun hdone => ?_
  rcases hdone.2 with hfl | hno
  · rw [hflag] at hfl
    cases hfl
  · exact hno hlively

/-- The current object is not being made. -/
theorem Timely.not_install (h : Timely d log) (hshape : Shape P d log) {o : ℕ}
    (ho : d.current = some o) : .install o ∉ d.stack :=
  hshape.fresh o (h.started o ho)

theorem object_of_waits {t : DeviceThread F} {o : ℕ} (h : t.waits o = true) :
    t.object = some o := by
  cases t with
  | stateSwitch o' f => exact congrArg some (of_decide_eq_true h)
  | timer o' f => cases h
  | flashDefault => cases h
  | deviceSwitch f => cases h

theorem object_of_calls {t : DeviceThread F} {o : ℕ} (h : t.calls o = true) :
    t.object = some o := by
  cases t with
  | timer o' f => exact congrArg some (of_decide_eq_true h)
  | stateSwitch o' f => cases h
  | flashDefault => cases h
  | deviceSwitch f => cases h

theorem lively_of_code {o : ℕ} {g : F} {cs : List (Command F)}
    (h : .code o (.switch g :: cs) ∈ d.stack) : d.Lively o :=
  Or.inr (Or.inr ⟨_, h, by simp [Frame.switches, Command.switches]⟩)

theorem switches_code {o j : ℕ} {cs : List (Command F)} :
    (Frame.code o cs).switches j = true ↔ o = j ∧ ∃ g, .switch g ∈ cs := by
  simp only [Frame.switches, Bool.and_eq_true, decide_eq_true_eq, List.any_eq_true]
  refine and_congr_right fun _ => ⟨?_, fun ⟨g, hg⟩ => ⟨_, hg, rfl⟩⟩
  rintro ⟨c, hc, hsw⟩
  cases c with
  | switch g => exact ⟨g, hc⟩
  | updateDeviceStatus st => cases hsw
  | startTimer g => cases hsw
  | cancelTimer => cases hsw
  | returnIfSwitching => cases hsw
  | returnIfExiting => cases hsw
  | raise => cases hsw

/-- A frame that is not an installation is left. -/
theorem Timely.pop (h : Timely d log) {y : Frame F} {rest : List (Frame F)}
    (hs : d.stack = y :: rest) (hy : ∀ o, y ≠ .install o) :
    Timely { d with stack := rest } log := by
  refine h.mono rfl (fun o ho => done_mono ho (fun t ht _ => ht) id ?_) (fun o ho => ?_) ?_
  · refine Or.imp id (Or.imp id ?_)
    rintro ⟨x, hx, hsw⟩
    exact ⟨x, hs ▸ List.mem_cons_of_mem _ hx, hsw⟩
  · rw [hs] at ho
    exact (List.mem_cons.mp ho).resolve_left fun heq => hy o heq.symm
  · rintro ⟨x, hx, hsw⟩
    exact ⟨x, hs ▸ List.mem_cons_of_mem _ hx, hsw⟩

/-- What is left of the innermost call wakes nobody up. -/
theorem Timely.shrink (h : Timely d log) {o : ℕ} {cs : List (Command F)} {rest : List (Frame F)}
    (hs : d.stack = .code o cs :: rest) {stack : List (Frame F)}
    (hstack : stack = rest ∨ ∃ cs', (∀ c ∈ cs', c ∈ cs) ∧ stack = .code o cs' :: rest)
    {objects : List (StateObject F)}
    (hflag : ∀ j, d.flagOf j = true → ({ d with objects := objects } : Device F).flagOf j = true)
    (htimer : ∀ j, (({ d with objects := objects } : Device F).timerOf j).isSome →
      (d.timerOf j).isSome) :
    Timely { d with objects := objects, stack := stack } log := by
  have hrest : ∀ y ∈ rest, y ∈ d.stack := fun y hy => hs ▸ List.mem_cons_of_mem _ hy
  refine h.mono rfl (fun j hj => done_mono hj (fun t ht _ => ht) (hflag j) ?_) (fun j hj => ?_) ?_
  · rintro (hl | hl | ⟨x, hx, hsw⟩)
    · exact Or.inl (htimer j hl)
    · exact Or.inr (Or.inl hl)
    · refine Or.inr (Or.inr ?_)
      rcases hstack with rfl | ⟨cs', hsub, rfl⟩
      · exact ⟨x, hrest x hx, hsw⟩
      · rcases List.mem_cons.mp hx with rfl | hx
        · obtain ⟨rfl, g, hg⟩ := switches_code.mp hsw
          exact ⟨_, hs ▸ List.mem_cons_self, switches_code.mpr ⟨rfl, g, hsub _ hg⟩⟩
        · exact ⟨x, hrest x hx, hsw⟩
  · rw [hs] at hj
    have hj' := (List.mem_cons.mp hj).resolve_left (by simp)
    rcases hstack with rfl | ⟨cs', -, rfl⟩
    · exact hj'
    · exact List.mem_cons_of_mem _ hj'
  · rintro ⟨y, hy, hsw⟩
    rcases hstack with rfl | ⟨cs', -, rfl⟩
    · exact ⟨y, hrest y hy, hsw⟩
    · rcases List.mem_cons.mp hy with rfl | hy
      · exact absurd hsw id
      · exact ⟨y, hrest y hy, hsw⟩

/-- **An object enters `switch`**, and the current one is done. -/
theorem Timely.enter (h : Timely d log) (hshape : Shape P d log) {o : ℕ} {obj : StateObject F}
    {g : F} {cs : List (Command F)} {rest : List (Frame F)}
    (hs : d.stack = .code o (.switch g :: cs) :: rest) (hobj : d.objects[o]? = some obj)
    (hflag : obj.switching = false) :
    Timely
      { d with
        objects := d.objects.set o { obj with switching := true }
        stack := .handleExit :: .stateFactory g :: .code o cs :: rest } log := by
  have hno : d.flagOf o = false := by rw [Device.flagOf, hobj, Option.any_some, hflag]
  have hlively : d.Lively o := lively_of_code (hs ▸ List.mem_cons_self)
  have hset := flagOf_set hobj { obj with switching := true }
  have htimer := timerOf_set hobj { obj with switching := true }
  have hframe : ∀ {j} {y : Frame F}, y ∈ (.handleExit :: .stateFactory g :: .code o cs :: rest :
      List (Frame F)) → y.switches j = true → j = o ∨ y ∈ d.stack := by
    intro j y hy hsw
    rcases List.mem_cons.mp hy with rfl | hy
    · cases hsw
    rcases List.mem_cons.mp hy with rfl | hy
    · cases hsw
    rcases List.mem_cons.mp hy with rfl | hy
    · exact Or.inl (switches_code.mp hsw).1.symm
    · exact Or.inr (hs ▸ List.mem_cons_of_mem _ hy)
  -- the object that switches is done from now on, by its flag
  have hself : ({ d with
      objects := d.objects.set o { obj with switching := true }
      stack := .handleExit :: .stateFactory g :: .code o cs :: rest } : Device F).Done o := by
    refine ⟨fun t ht hw => ?_, Or.inl ?_⟩
    · have hcount := hshape.waits o
      rw [hno, if_neg Bool.false_ne_true, Nat.le_zero, List.countP_eq_zero] at hcount
      exact hcount t ht hw
    · exact (hset o).trans (if_pos rfl)
  have hmono : ∀ j, d.Done j → ({ d with
      objects := d.objects.set o { obj with switching := true }
      stack := .handleExit :: .stateFactory g :: .code o cs :: rest } : Device F).Done j := by
    intro j hj
    by_cases heq : j = o
    · exact heq ▸ hself
    refine done_mono hj (fun t ht _ => ht) (fun hfl => ?_) ?_
    · exact (hset j).trans (by rw [if_neg heq, hfl])
    · rintro (hl | hl | ⟨y, hy, hsw⟩)
      · refine Or.inl ?_
        have hj' := htimer j
        rw [if_neg heq] at hj'
        exact hj' ▸ hl
      · exact Or.inr (Or.inl hl)
      · exact Or.inr (Or.inr ⟨y, (hframe hy hsw).resolve_left heq, hsw⟩)
  refine ⟨h.started, fun j => ?_, fun _ p hp => ?_⟩
  · refine (h.done j).imp (hmono j) (Or.imp_left fun hj => ?_)
    rw [hs] at hj
    have hj' := (List.mem_cons.mp hj).resolve_left (by simp)
    exact List.mem_cons_of_mem _ (List.mem_cons_of_mem _ (List.mem_cons_of_mem _ hj'))
  · by_cases heq : p = o
    · exact heq ▸ hself
    · -- a constructor switches: the current object is yielding already
      rcases h.install_or_current hno hlively with hin | hcur
      · exact hmono p (h.yielding ⟨_, hin, trivial⟩ p hp)
      · exact absurd (Option.some.inj (hp.symm.trans hcur)) heq

/-- **A timer is started** for the object being made. -/
theorem Timely.startTimer (h : Timely d log) (hshape : Shape P d log) {o : ℕ} {obj : StateObject F}
    {g : F} {cs : List (Command F)} {rest : List (Frame F)}
    (hs : d.stack = .code o (.startTimer g :: cs) :: rest) (hobj : d.objects[o]? = some obj) :
    Timely { d with objects := d.objects.set o { obj with timer := some g } } log := by
  obtain ⟨hhead, -⟩ : TimersInInit (.code o (.startTimer g :: cs) :: rest) := hs ▸ hshape.timers
  have hin : .install o ∈ d.stack := by
    obtain ⟨rest', rfl⟩ := List.head?_eq_some_iff.mp (hhead ⟨g, List.mem_cons_self⟩).2
    rw [hs]
    exact List.mem_cons_of_mem _ List.mem_cons_self
  have hmono : ∀ j, j ≠ o → d.Done j →
      ({ d with objects := d.objects.set o { obj with timer := some g } } : Device F).Done j := by
    intro j hne hj
    refine done_mono hj (fun t ht _ => ht) (fun hfl => ?_) (Or.imp (fun hl => ?_) id)
    · rw [flagOf_set hobj, if_neg hne, hfl]
    · rwa [timerOf_set hobj, if_neg hne] at hl
  refine ⟨h.started, fun j => ?_, fun hy p hp => ?_⟩
  · by_cases heq : j = o
    · exact Or.inr (Or.inl (heq ▸ hin))
    · exact (h.done j).imp_left (hmono j heq)
  · refine hmono p (fun heq => ?_) (h.yielding hy p hp)
    exact h.not_install hshape hp (heq ▸ hin)

/-- **The factory makes an object.** -/
theorem Timely.build (h : Timely d log) (hshape : Shape P d log) {f : F} {rest : List (Frame F)}
    (hs : d.stack = .stateFactory f :: rest) {cs : List (Command F)} :
    Timely
      { d with
        objects := d.objects ++ [⟨f, false, false, none⟩]
        stack := .code d.objects.length cs :: .install d.objects.length :: rest } log := by
  have hmono : ∀ j, j ≠ d.objects.length → d.Done j → ({ d with
      objects := d.objects ++ [⟨f, false, false, none⟩]
      stack := .code d.objects.length cs :: .install d.objects.length :: rest } :
        Device F).Done j := by
    intro j hne hj
    have hget : (d.objects ++ [(⟨f, false, false, none⟩ : StateObject F)])[j]? = d.objects[j]? :=
      (getElem?_make d f j).trans (if_neg hne)
    refine done_mono hj (fun t ht _ => ht) (fun hfl => ?_) ?_
    · rwa [Device.flagOf, hget]
    · rintro (hl | hl | ⟨y, hy, hsw⟩)
      · rw [Device.timerOf, hget] at hl
        exact Or.inl hl
      · exact Or.inr (Or.inl hl)
      · rcases List.mem_cons.mp hy with rfl | hy
        · exact absurd (switches_code.mp hsw).1.symm hne
        rcases List.mem_cons.mp hy with rfl | hy
        · cases hsw
        · exact Or.inr (Or.inr ⟨y, hs ▸ List.mem_cons_of_mem _ hy, hsw⟩)
  refine ⟨h.started, fun j => ?_, fun _ p hp => ?_⟩
  · by_cases heq : j = d.objects.length
    · exact Or.inr (Or.inl (heq ▸ List.mem_cons_of_mem _ List.mem_cons_self))
    · refine (h.done j).imp (hmono j heq) (Or.imp_left fun hj => ?_)
      rw [hs] at hj
      exact List.mem_cons_of_mem _ (List.mem_cons_of_mem _
        ((List.mem_cons.mp hj).resolve_left (by simp)))
  · refine hmono p ?_ (h.yielding ⟨.stateFactory f, hs ▸ List.mem_cons_self, trivial⟩ p hp)
    exact Nat.ne_of_lt (hshape.made p (h.started p hp))

/-- **The object is installed**: the current one, which was done, gives way. -/
theorem Timely.install (h : Timely d log) (ht : Tame P) (hshape : Shape P d log) {o : ℕ}
    {obj : StateObject F} {rest : List (Frame F)} (hs : d.stack = .install o :: rest)
    (hobj : d.objects[o]? = some obj)
    {x : I} :
    Timely { d with current := some o, stack := .code o (P.code .start obj.factory x) :: rest }
      (.start o :: log) := by
  have hold : ∀ {y}, y ∈ rest → y ∈ d.stack := fun hy => hs ▸ List.mem_cons_of_mem _ hy
  have hmono : ∀ j, j ≠ o → d.Done j → ({ d with
      current := some o, stack := .code o (P.code .start obj.factory x) :: rest } :
      Device F).Done j := by
    intro j hne hj
    refine done_mono hj (fun t ht _ => ht) id (Or.imp id (Or.imp id fun ⟨y, hy, hsw⟩ => ?_))
    rcases List.mem_cons.mp hy with rfl | hy
    · exact absurd (switches_code.mp hsw).1.symm hne
    · exact ⟨y, hold hy, hsw⟩
  refine ⟨fun j hj => Option.some.inj hj ▸ List.mem_cons_self, fun j => ?_,
    fun ⟨y, hy, hsw⟩ p hp => ?_⟩
  · by_cases heq : j = o
    · exact Or.inr (Or.inr (congrArg some heq.symm))
    rcases h.done j with hj | hin | hcur
    · exact Or.inl (hmono j heq hj)
    · rw [hs] at hin
      rcases List.mem_cons.mp hin with hin | hin
      · exact absurd (Frame.install.inj hin) heq
      · exact Or.inr (Or.inl (List.mem_cons_of_mem _ hin))
    · exact Or.inl (hmono j heq (h.yielding ⟨.install o, hs ▸ List.mem_cons_self, trivial⟩ j hcur))
  · -- within another switch only inert objects are installed
    obtain rfl := Option.some.inj hp
    have hy' : y ∈ rest := by
      rcases List.mem_cons.mp hy with rfl | hy
      · exact absurd hsw id
      · exact hy
    have hfac : d.factoryOf o = some obj.factory := by rw [Device.factoryOf, hobj, Option.map_some]
    obtain ⟨hhead, -⟩ := List.pairwise_cons.mp (hs ▸ hshape.nested)
    have hinert : P.Inert obj.factory := ht.fallback _ ((hhead y hy' hsw).2 _ hfac)
    obtain ⟨hact, hframes⟩ := hshape.inert o _ hfac hinert
    refine ⟨fun t ht hw => hact (Or.inr ⟨t, ht, object_of_waits hw⟩), Or.inr ?_⟩
    rintro (hl | ⟨t, ht, hc⟩ | ⟨z, hz, hsw'⟩)
    · exact hact (Or.inl (Option.isSome_iff_ne_none.mp hl))
    · exact hact (Or.inr ⟨t, ht, object_of_calls hc⟩)
    · rcases List.mem_cons.mp hz with rfl | hz'
      · obtain ⟨-, g, hg⟩ := switches_code.mp hsw'
        exact (hinert .start x _ hg).1 g rfl
      · cases z with
        | code j cs =>
          obtain ⟨rfl, g, hg⟩ := switches_code.mp hsw'
          exact (hframes cs (hold hz') _ hg).1 g rfl
        | handleExit => cases hsw'
        | stateFactory f => cases hsw'
        | install j => cases hsw'
        | unlock j => cases hsw'

/-- A method of the current object begins on a free lock. -/
theorem Timely.begin (h : Timely d log) (hs : d.stack = []) {o : ℕ} (hcur : d.current = some o)
    {cs : List (Command F)} {tail : List (Frame F)} (htail : ∀ y ∈ tail, y = .unlock o) :
    Timely { d with stack := .code o cs :: tail } log := by
  have hsw : ∀ y ∈ (.code o cs :: tail : List (Frame F)), ¬y.InSwitch := by
    intro y hy hsw
    rcases List.mem_cons.mp hy with rfl | hy
    · exact hsw
    · exact absurd (htail y hy ▸ hsw : (Frame.unlock o : Frame F).InSwitch) id
  refine ⟨h.started, fun j => ?_, fun ⟨y, hy, hyw⟩ => absurd hyw (hsw y hy)⟩
  by_cases heq : j = o
  · exact Or.inr (Or.inr (heq ▸ hcur))
  rcases h.done j with hj | hin | hcur'
  · refine Or.inl
      (done_mono hj (fun t ht _ => ht) id (Or.imp id (Or.imp id fun ⟨y, hy, hyw⟩ => ?_)))
    rcases List.mem_cons.mp hy with rfl | hy
    · exact absurd (switches_code.mp hyw).1.symm heq
    · rw [htail y hy] at hyw
      cases hyw
  · rw [hs] at hin
    exact absurd hin List.not_mem_nil
  · exact Or.inr (Or.inr hcur')

/-- `Device.switch` is entered on a free lock, with the current object done. -/
theorem Timely.begin_switch (h : Timely d log) (hs : d.stack = []) {f : F} {k : ℕ}
    (hdone : ∀ p, d.current = some p →
      ({ d with threads := d.threads.eraseIdx k } : Device F).Done p) :
    Timely
      { d with
        stack := [.handleExit, .stateFactory f]
        threads := advance d.threads k none } log := by
  have hmono : ∀ {j}, ({ d with threads := d.threads.eraseIdx k } : Device F).Done j →
      ({ d with stack := [.handleExit, .stateFactory f], threads := advance d.threads k none } :
        Device F).Done j := by
    intro j hj
    refine done_mono hj (fun t ht _ => ht) id (Or.imp id (Or.imp id fun ⟨y, hy, hyw⟩ => ?_))
    rcases List.mem_cons.mp hy with rfl | hy
    · cases hyw
    · rw [List.mem_singleton.mp hy] at hyw
      cases hyw
  refine ⟨h.started, fun j => ?_, fun _ p hp => hmono (hdone p hp)⟩
  rcases h.done j with hj | hin | hcur
  · refine Or.inl (hmono (done_mono hj (fun t ht _ => List.mem_of_mem_eraseIdx ht) id ?_))
    exact Or.imp id (Or.imp (fun ⟨t, ht, hc⟩ => ⟨t, List.mem_of_mem_eraseIdx ht, hc⟩) id)
  · rw [hs] at hin
    exact absurd hin List.not_mem_nil
  · exact Or.inr (Or.inr hcur)

/-- **A timer's callback sets the flag** of its object, which is current or
being made. -/
theorem Timely.timerSwitch (h : Timely d log) {k o : ℕ} {f : F} {obj : StateObject F}
    (hk : d.threads[k]? = some (.timer o f)) (hobj : d.objects[o]? = some obj)
    (hflag : obj.switching = false) :
    Timely
      { d with
        objects := d.objects.set o { obj with switching := true }
        threads := advance d.threads k (some (.stateSwitch o f)) } log := by
  have hno : d.flagOf o = false := by rw [Device.flagOf, hobj, Option.any_some, hflag]
  have hlively : d.Lively o :=
    Or.inr (Or.inl ⟨_, List.mem_of_getElem? hk, decide_eq_true rfl⟩)
  have hmono : ∀ j, j ≠ o → d.Done j → ({ d with
      objects := d.objects.set o { obj with switching := true }
      threads := advance d.threads k (some (.stateSwitch o f)) } : Device F).Done j := by
    intro j hne hj
    have hthread : ∀ {t}, t ∈ advance d.threads k (some (.stateSwitch o f)) →
        t = .stateSwitch o f ∨ t ∈ d.threads := fun ht =>
      ((mem_advance hk).mp ht).imp (fun heq => (Option.some.inj heq).symm) List.mem_of_mem_eraseIdx
    refine done_mono hj (fun t ht hw => ?_) (fun hfl => ?_) ?_
    · refine (hthread ht).resolve_left fun heq => ?_
      rw [heq] at hw
      exact hne (of_decide_eq_true hw).symm
    · exact (flagOf_set hobj _ j).trans (by rw [if_neg hne, hfl])
    · rintro (hl | ⟨t, ht, hc⟩ | hl)
      · have hj' := timerOf_set hobj { obj with switching := true } j
        rw [if_neg hne] at hj'
        exact Or.inl (hj' ▸ hl)
      · rcases hthread ht with rfl | ht
        · cases hc
        · exact Or.inr (Or.inl ⟨t, ht, hc⟩)
      · exact Or.inr (Or.inr hl)
  refine ⟨h.started, fun j => ?_, fun hy p hp => ?_⟩
  · by_cases heq : j = o
    · rw [heq]
      exact Or.inr (h.install_or_current hno hlively)
    · exact (h.done j).imp_left (hmono j heq)
  · have hdone := h.yielding hy p hp
    refine hmono p ?_ hdone
    rintro rfl
    rcases hdone.2 with hfl | hl
    · rw [hno] at hfl
      cases hfl
    · exact hl hlively

/-- The threads that wait for the lock, or call `switch`, become no more. -/
theorem Timely.threads (h : Timely d log) {threads : List (DeviceThread F)}
    (hw : ∀ t ∈ threads, ∀ o, t.waits o = true → t ∈ d.threads)
    (hc : ∀ t ∈ threads, ∀ o, t.calls o = true → t ∈ d.threads) :
    Timely { d with threads := threads } log := by
  refine h.mono rfl (fun o ho => ?_) (fun _ => id) id
  refine done_mono ho (fun t ht hwaits => hw t ht o hwaits) id (Or.imp id (Or.imp ?_ id))
  rintro ⟨t, ht, hcalls⟩
  exact ⟨t, hc t ht o hcalls, hcalls⟩

/-- A command of the innermost call that raises no flag and starts no timer. -/
theorem Timely.note (h : Timely d log) {o : ℕ} {obj obj' : StateObject F} {c : Command F}
    {cs : List (Command F)} {rest : List (Frame F)} (hs : d.stack = .code o (c :: cs) :: rest)
    (hobj : d.objects[o]? = some obj) (hflag : obj.switching = true → obj'.switching = true)
    (htimer : obj'.timer.isSome → obj.timer.isSome) :
    Timely { d with objects := d.objects.set o obj', stack := .code o cs :: rest } log := by
  refine h.shrink hs (Or.inr ⟨cs, fun c' hc' => List.mem_cons_of_mem _ hc', rfl⟩)
    (fun j hj => flagOf_set_of_flag hobj hflag hj) fun j hj => ?_
  rw [timerOf_set hobj] at hj
  split at hj
  · rename_i heq
    rw [heq, Device.timerOf, hobj, Option.bind_some]
    exact htimer hj
  · exact hj

/-- **An exception** leaves every call, and whatever was being made has started no
timer. -/
theorem Timely.raise (h : Timely d log) (hshape : Shape P d log) {o : ℕ} {cs : List (Command F)}
    {rest : List (Frame F)} (hs : d.stack = .code o (.raise :: cs) :: rest) :
    Timely { d with stack := [] } log := by
  have hnone : ∀ {p : Frame F → Prop}, (∃ y ∈ ([] : List (Frame F)), p y) → False := by
    rintro p ⟨y, hy, -⟩
    exact List.not_mem_nil hy
  refine ⟨h.started, fun j => ?_, fun hin => absurd hin hnone⟩
  rcases h.done j with hj | hin | hcur
  · exact Or.inl (done_mono hj (fun t ht _ => ht) id
      (Or.imp id (Or.imp id fun hin => absurd hin hnone)))
  · have hact := hshape.not_active_of_install hs (Or.inl rfl) hin
    refine Or.inl ⟨fun t ht hw => hact (Or.inr ⟨t, ht, object_of_waits hw⟩), Or.inr ?_⟩
    rintro (hl | ⟨t, ht, hc⟩ | ⟨y, hy, -⟩)
    · exact hact (Or.inl (Option.isSome_iff_ne_none.mp hl))
    · exact hact (Or.inr ⟨t, ht, object_of_calls hc⟩)
    · exact absurd hy List.not_mem_nil
  · exact Or.inr (Or.inr hcur)

/-- **A timer fires**: its callback takes its place. -/
theorem Timely.fire (h : Timely d log) {o : ℕ} {obj : StateObject F} {g : F}
    (hobj : d.objects[o]? = some obj) (htimer : obj.timer = some g) :
    Timely
      { d with
        objects := d.objects.set o { obj with timer := none }
        threads := d.threads ++ [.timer o g] } log := by
  refine h.mono rfl (fun j hj => done_mono hj (fun t ht hw => ?_) (fun hfl => ?_) ?_)
    (fun _ => id) id
  · refine (List.mem_append.mp ht).resolve_right fun ht' => ?_
    rw [List.mem_singleton.mp ht'] at hw
    cases hw
  · have hkeep : obj.switching = true → { obj with timer := none }.switching = true := id
    exact flagOf_set_of_flag hobj hkeep hfl
  · rintro (hl | ⟨t, ht, hc⟩ | hl)
    · have hl' : (({ d with objects := d.objects.set o { obj with timer := none } } :
          Device F).timerOf j).isSome := hl
      rw [timerOf_set hobj] at hl'
      split at hl'
      · cases hl'
      · exact Or.inl hl'
    · rcases List.mem_append.mp ht with ht | ht
      · exact Or.inr (Or.inl ⟨t, ht, hc⟩)
      · obtain rfl := List.mem_singleton.mp ht
        obtain rfl : o = j := of_decide_eq_true hc
        exact Or.inl (by rw [Device.timerOf, hobj, Option.bind_some, htimer]; rfl)
    · exact Or.inr (Or.inr hl)

/-- **The object whose switch waited** for the lock is still the current one, and
no other call of its `switch` waits. -/
theorem Timely.done_of_stateSwitch (h : Timely d log) (hshape : Shape P d log) {k o p : ℕ} {f : F}
    (hk : d.threads[k]? = some (.stateSwitch o f)) (hs : d.stack = []) (hp : d.current = some p) :
    ({ d with threads := d.threads.eraseIdx k } : Device F).Done p := by
  have hwait : (DeviceThread.stateSwitch o f : DeviceThread F).waits o = true := decide_eq_true rfl
  have hcur : d.current = some o := by
    rcases h.done o with hdone | hin | hcur
    · exact absurd hwait (hdone.1 _ (List.mem_of_getElem? hk))
    · rw [hs] at hin
      exact absurd hin List.not_mem_nil
    · exact hcur
  obtain rfl := Option.some.inj (hcur.symm.trans hp)
  have hcount := hshape.waits o
  rw [countP_eraseIdx _ hk, hwait, if_pos rfl] at hcount
  have hflag : d.flagOf o = true := by
    by_contra hno
    rw [if_neg hno] at hcount
    omega
  rw [hflag, if_pos rfl] at hcount
  refine ⟨fun t ht hw => ?_, Or.inl hflag⟩
  exact List.countP_eq_zero.mp (Nat.le_zero.mp (Nat.le_of_add_le_add_right hcount)) t ht hw

/-- **Every rule keeps it**, where the device is patient. -/
theorem timely_rule (ht : Tame P) {r : DeviceRun F} {j : DeviceStep I} {d' : Device F}
    {e : Option Effect} (hshape : Shape P r.device r.log) (h : Timely r.device r.log)
    (hpatient : Patient (I := I) r (.step j)) (hrule : Rule P r.device j d' e) :
    Timely d' (e.toList ++ r.log) := by
  obtain ⟨d, log⟩ := r
  dsimp only at hshape h hrule ⊢
  have hkeep : ∀ {e' : Option Effect}, ∀ o, .start o ∈ log → .start o ∈ e'.toList ++ log :=
    fun o ho => List.mem_append_right _ ho
  have herase : ∀ {k : ℕ} {t : DeviceThread F}, t ∈ d.threads.eraseIdx k → t ∈ d.threads :=
    List.mem_of_mem_eraseIdx
  have hself : ∀ {cs : List (Command F)} {c : Command F}, ∀ c' ∈ cs, c' ∈ c :: cs :=
    fun c' hc' => List.mem_cons_of_mem _ hc'
  cases hrule with
  | pop hs => exact h.shrink hs (Or.inl rfl) (fun _ => id) fun _ => id
  | unlock hs => exact h.pop hs (by simp)
  | skip hs => exact h.shrink hs (Or.inr ⟨_, hself, rfl⟩) (fun _ => id) fun _ => id
  | status hs =>
    have hrest := h.shrink hs (Or.inr ⟨_, hself, rfl⟩) (fun _ => id) fun _ => id
    exact hrest.log_mono hkeep
  | mark hs hobj => exact h.note hs hobj id id
  | startTimer hs hobj =>
    exact (h.startTimer hshape hs hobj).shrink hs (Or.inr ⟨_, hself, rfl⟩) (fun _ => id) fun _ => id
  | cancelTimer hs hobj => exact h.note hs hobj id fun hnone => by cases hnone
  | switch hs hobj hflag => exact h.enter hshape hs hobj hflag
  | raise hs => exact h.raise hshape hs
  | @exit x rest hs =>
    have hrest : Timely { d with stack := rest } log := h.pop hs (by simp)
    exact hrest.log_mono hkeep
  | build hs => exact h.build hshape hs
  | install hs hobj => exact h.install ht hshape hs hobj
  | idle => exact h
  | event hs hcur hobj => exact (h.begin hs hcur (by simp)).log_mono hkeep
  | request hs hcur hobj =>
    exact (h.begin hs hcur fun y hy => absurd hy List.not_mem_nil).log_mono hkeep
  | fire hobj htimer => exact h.fire hobj htimer
  | @flashDefault k hk =>
    have hthread : ∀ t ∈ advance d.threads k (some (.deviceSwitch P.flashDefault)),
        t = .deviceSwitch P.flashDefault ∨ t ∈ d.threads := fun t ht =>
      ((mem_advance hk).mp ht).imp (fun heq => (Option.some.inj heq).symm) herase
    refine (h.threads (fun t ht o hw => ?_) fun t ht o hc => ?_).log_mono hkeep
    · refine (hthread t ht).resolve_left fun heq => ?_
      rw [heq] at hw
      cases hw
    · refine (hthread t ht).resolve_left fun heq => ?_
      rw [heq] at hc
      cases hc
  | @deviceSwitch k f hk hs =>
    refine h.begin_switch hs fun p hp => ?_
    have hdone := hpatient f (by simp [hk, DeviceThread.entersFor]) p hp
    refine done_mono hdone (fun t ht _ => herase ht) id (Or.imp id (Or.imp ?_ id))
    rintro ⟨t, ht, hc⟩
    exact ⟨t, herase ht, hc⟩
  | stateSwitch hk hs => exact h.begin_switch hs fun p hp => h.done_of_stateSwitch hshape hk hs hp
  | timerIgnored hk hobj hflag =>
    exact h.threads (fun t ht _ _ => herase ht) fun t ht _ _ => herase ht
  | timerSwitch hk hobj hflag => exact h.timerSwitch hk hobj hflag

theorem timely_start (P : StateTable F I) : Timely P.init [] where
  started := fun o ho => absurd ho (by simp [init])
  done := fun o => Or.inl (by simp [Device.Done, Device.Lively, Device.timerOf, init,
    DeviceThread.waits, DeviceThread.calls])
  yielding := fun ⟨y, hy, _⟩ => absurd hy List.not_mem_nil

/-- What happens to a patient device keeps it. -/
theorem timely_step (ht : Tame P) {r r' : DeviceRun F} {i : DeviceInput I}
    (hshape : Shape P r.device r.log) (h : Timely r.device r.log) (hpatient : Patient r i)
    (hstep : P.runStep r i = some r') : Timely r'.device r'.log := by
  rcases runStep_cases hstep with ⟨ts, rfl, hts⟩ | ⟨j, e, rfl, hrule, hlog⟩
  · have hidle : ∀ t ∈ ts, ∀ o, t.waits o = false ∧ t.calls o = false := by
      intro t htm o
      rcases hts t htm with rfl | ⟨kind, f, -, rfl⟩
      · exact ⟨rfl, rfl⟩
      · exact ⟨rfl, rfl⟩
    refine h.threads (fun t htm o hw => ?_) fun t htm o hc => ?_
    · refine (List.mem_append.mp htm).resolve_right fun htm' => ?_
      rw [(hidle t htm' o).1] at hw
      cases hw
    · refine (List.mem_append.mp htm).resolve_right fun htm' => ?_
      rw [(hidle t htm' o).2] at hc
      cases hc
  · rw [hlog]
    exact timely_rule ht hshape h hpatient hrule

/-! ### No stale switches -/

/-- The object whose call of `switch` enters `Device.switch` at a step. -/
def entering (d : Device F) : DeviceInput I → Option ℕ
  | .step (.exec _) =>
    match d.stack with
    | .code o (.switch _ :: _) :: _ => if d.flagOf o then none else some o
    | _ => none
  | .step (.thread k) =>
    match d.threads[k]?, d.stack with
    | some (.stateSwitch o _), [] => some o
    | _, _ => none
  | .step _ | .handleReserve _ | .handleUnreserve => none

/-- An object that was `_device`, and is not any more. -/
def Replaced (r : DeviceRun F) (o : ℕ) : Prop := .start o ∈ r.log ∧ r.device.current ≠ some o

instance (r : DeviceRun F) (o : ℕ) : Decidable (Replaced r o) := inferInstanceAs (Decidable (_ ∧ _))

/-- No call of `switch` made by a replaced object gets past its flag and enters
`Device.switch`. -/
def NoStaleSwitch (r : DeviceRun F) (i : DeviceInput I) : Prop :=
  ∀ o ∈ entering r.device i, ¬Replaced r o

instance (r : DeviceRun F) (i : DeviceInput I) : Decidable (NoStaleSwitch r i) :=
  inferInstanceAs (Decidable (∀ o ∈ entering r.device i, ¬Replaced r o))

theorem noStaleSwitch_of_timely {r : DeviceRun F} (hshape : Shape P r.device r.log)
    (h : Timely r.device r.log) (i : DeviceInput I) : NoStaleSwitch r i := by
  rintro o ho ⟨hstart, hcur⟩
  have hin := hshape.fresh o hstart
  rw [Option.mem_def, entering.eq_def] at ho
  split at ho
  · split at ho
    · rename_i hs
      split at ho
      · cases ho
      · rename_i hflag
        obtain rfl := Option.some.inj ho
        rcases h.install_or_current (Bool.eq_false_iff.mpr hflag)
          (lively_of_code (hs ▸ List.mem_cons_self)) with h' | h'
        · exact hin h'
        · exact hcur h'
    · cases ho
  · split at ho
    · rename_i k _ _ o' f hk hs
      obtain rfl := Option.some.inj ho
      rcases h.done o' with hdone | h' | h'
      · exact hdone.1 _ (List.mem_of_getElem? hk) (decide_eq_true rfl)
      · exact hin h'
      · exact hcur h'
    · cases ho
  · cases ho
  · cases ho
  · cases ho

/-- **In patient runs no replaced object ever enters `switch`.** -/
theorem noStaleSwitch_of_patient (ht : Tame P) {is : List (DeviceInput I)}
    (hpatient : P.machine.Meets Patient P.start is) :
    P.machine.Meets NoStaleSwitch P.start is := by
  refine Machine.meets_of_meets (I := fun r => Shape P r.device r.log ∧ Timely r.device r.log)
    (fun r i r' h hp hstep => ?_) (fun r i h _ => noStaleSwitch_of_timely h.1 h.2 i)
    ⟨shape_start, timely_start P⟩ hpatient
  exact ⟨shape_step ht h.1 hstep, timely_step ht h.1 h.2 hp hstep⟩

end StateTable

namespace Worker

/-! ### The classes of a worker -/

/-- Constructors of a worker's classes switch to `BrokenState` only. -/
theorem eq_broken_of_fallback {g : StateFactory} (h : states.Fallback g) : g = .broken := by
  obtain ⟨f, x, hg⟩ := h
  obtain ⟨hm, -⟩ | ⟨hm, -⟩ | ⟨hm, -⟩ | ⟨-, -, rfl⟩ := mayDo_of_mem_code hg
  · exact absurd rfl hm
  · cases hm
  · cases hm
  · rfl

theorem inert_broken : states.Inert .broken := by
  intro m x c hc
  refine ⟨fun g => ?_, fun g => ?_⟩
  · rintro rfl
    obtain ⟨-, firmware, next, timeout, hf, -⟩ | ⟨-, hf, -⟩ | ⟨-, hf, -⟩ | ⟨-, hf, -⟩ :=
      mayDo_of_mem_code hc <;> cases hf
  · rintro rfl
    obtain ⟨-, -, hf | ⟨firmware, next, timeout, hf⟩⟩ := mayDo_of_mem_code hc <;> cases hf

/-- **The classes of a worker keep to what is asked of them.** -/
theorem tame_states : states.Tame where
  fallback := fun g hg => eq_broken_of_fallback hg ▸ inert_broken
  timer := fun m f x g hg => by
    obtain ⟨rfl, -, rfl | ⟨firmware, next, timeout, rfl⟩⟩ := mayDo_of_mem_code hg
    · exact ⟨rfl, by simp [StateTable.Calm, states, code]⟩
    · refine ⟨rfl, fun c hc => ?_⟩
      simp only [states, code] at hc
      split at hc
      · obtain rfl := List.mem_singleton.mp hc
        simp
      · exact absurd hc List.not_mem_nil

/-- **A worker's device that waits for its object sees no stale switch.** In
every run in which `handleReserve` and `handleUnreserve` enter `Device.switch`
only where the current object is done with switching, no later call of `switch`
by an object that has been replaced, from a timer or otherwise, enters
`Device.switch`: it changes neither the current object nor the status. -/
theorem replaced_never_switches {is : List (DeviceInput Outside)}
    (hpatient : states.machine.Meets StateTable.Patient states.start is) :
    states.machine.Meets StateTable.NoStaleSwitch states.start is :=
  StateTable.noStaleSwitch_of_patient tame_states hpatient

instance (r : DeviceRun StateFactory) :
    ∀ i : DeviceInput Outside, Decidable (StateTable.Patient r i)
  | .step (.thread k) => inferInstanceAs (Decidable (∀ f ∈
      (r.device.threads[k]?).bind DeviceThread.entersFor, ∀ o ∈ r.device.current, r.device.Done o))
  | .step (.exec _) | .step (.event ..) | .step (.request _) | .step (.fire _) => .isTrue trivial
  | .handleReserve _ | .handleUnreserve => .isTrue trivial

/-- A ready device is reserved as `pulsecount`. -/
def pulseReserved : List (DeviceInput Outside) :=
  becomesReady ++ [.handleReserve "pulsecount", .step (.thread 0)] ++ execs 11

/-- The condition can be met: no timer is left when a ready device is
reserved. -/
theorem pulseReserved_never_switches :
    states.machine.Meets StateTable.NoStaleSwitch states.start pulseReserved :=
  replaced_never_switches (by decide)

/-- A device that is still flashing is reserved as `pulsecount`. -/
def flashingReserved : List (DeviceInput Outside) :=
  [.step (.thread 0), .step (.thread 0)] ++ execs 6 ++
    [.handleReserve "pulsecount", .step (.thread 0)] ++ execs 11

/-- The timer of the default `FlashState` runs out, and its callback does the
rest. -/
def staleTimer : List (DeviceInput Outside) :=
  [.step (.fire 0), .step (.thread 0), .step (.thread 0)] ++ execs 6

theorem flashingReserved_run :
    (states.machine.run states.start flashingReserved).map
      (fun r => (r.device.stack, r.device.current, r.log)) =
        some ([], some 2, [.start 2, .exit 1, .start 1, .exit 0, .start 0,
          .status .flashingDefault]) := by
  decide

theorem staleTimer_run :
    (states.machine.run states.start (flashingReserved ++ staleTimer)).map
      (fun r => (r.device.current, r.log)) =
        some (some 3, [.start 3, .status .broken, .exit 2, .start 2, .exit 1, .start 1, .exit 0,
          .start 0, .status .flashingDefault]) := by
  decide

/-- **A stale timer breaks the state of a later client**: object 0 has been
replaced twice, and the steps of its timer and of nothing else replace the
current object 2 and write the status. -/
theorem staleTimer_switches :
    (∃ r, states.machine.run states.start flashingReserved = some r ∧ StateTable.Replaced r 0 ∧
      r.device.stack = [] ∧ r.device.current = some 2) ∧
    (∃ r, states.machine.run states.start (flashingReserved ++ staleTimer) = some r ∧
      r.device.current = some 3 ∧ .status .broken ∈ r.log) ∧
    ¬states.machine.Meets StateTable.NoStaleSwitch states.start
      (flashingReserved ++ staleTimer) := by
  refine ⟨?_, ?_, by decide⟩
  · obtain ⟨r, hr, heq⟩ := Option.map_eq_some_iff.mp flashingReserved_run
    obtain ⟨hstack, hcur, hlog⟩ : r.device.stack = [] ∧ r.device.current = some 2 ∧ _ := by
      simpa using heq
    exact ⟨r, hr, ⟨by simp [hlog], by simp [hcur]⟩, hstack, hcur⟩
  · obtain ⟨r, hr, heq⟩ := Option.map_eq_some_iff.mp staleTimer_run
    obtain ⟨hcur, hlog⟩ := Prod.mk.inj heq
    exact ⟨r, hr, hcur, by simp [hlog]⟩

end Worker

end UsbipIce
