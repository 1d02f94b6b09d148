import UsbipIce.Worker.Origin

/-!
# The shape of a device

What every run of a device keeps, whoever enters `switch` when
(`UsbipIce.StateTable.Shape`): which objects exist, where timers come from, and
how calls of `switch` nest. It rests on three habits of the state classes
(`UsbipIce.StateTable.Tame`): a constructor switches, if at all, to a class
that has no timers and does not switch; only constructors start timers; and
those that do neither raise nor switch.
-/

namespace UsbipIce

open Lib

/-! ### Threads that switch -/

namespace DeviceThread

variable {F : Type*}

/-- The object a thread calls `switch` for. -/
def object : DeviceThread F → Option ℕ
  | .timer o _ | .stateSwitch o _ => some o
  | .flashDefault | .deviceSwitch _ => none

/-- The thread is in a call of `switch` that has set its object's flag. -/
def waits (o : ℕ) : DeviceThread F → Bool
  | .stateSwitch o' _ => decide (o' = o)
  | .timer .. | .flashDefault | .deviceSwitch _ => false

end DeviceThread

namespace Device

variable {F : Type*}

/-- A timer of the object waits, or a thread started by one is on its way. -/
def Active (d : Device F) (o : ℕ) : Prop :=
  d.timerOf o ≠ none ∨ ∃ t ∈ d.threads, t.object = some o

end Device

/-- A phase of `Device.switch`. -/
def Frame.InSwitch {F : Type*} : Frame F → Prop
  | .handleExit | .stateFactory _ | .install _ => True
  | .code .. | .unlock _ => False

namespace StateTable

variable {F I : Type*}

/-- No method of the class starts a timer or switches. -/
def Inert (P : StateTable F I) (f : F) : Prop :=
  ∀ m x, ∀ c ∈ P.code m f x, (∀ g, c ≠ .switch g) ∧ ∀ g, c ≠ .startTimer g

/-- Some constructor switches to the factory. -/
def Fallback (P : StateTable F I) (g : F) : Prop := ∃ f x, .switch g ∈ P.code .init f x

/-- Commands that neither raise nor switch. -/
def Calm (cs : List (Command F)) : Prop := ∀ c ∈ cs, c ≠ .raise ∧ ∀ g, c ≠ .switch g

/-- **What the classes of a worker keep to**: a constructor switches to classes
without timers and switches of their own, and timers are started by
constructors that neither raise nor switch. -/
structure Tame (P : StateTable F I) : Prop where
  fallback : ∀ g, P.Fallback g → P.Inert g
  timer : ∀ m f x g, .startTimer g ∈ P.code m f x → m = .init ∧ Calm (P.code m f x)

/-! ### The shape of the stack -/

/-- What may stand above a phase of `Device.switch` in the stack. -/
def Nests (P : StateTable F I) (d : Device F) (x y : Frame F) : Prop :=
  y.InSwitch →
    match x with
    | .code _ cs => ∀ g, .switch g ∈ cs → P.Fallback g
    | .stateFactory f => P.Fallback f
    | .install o => y ≠ .install o ∧ ∀ f, d.factoryOf o = some f → P.Fallback f
    | .handleExit | .unlock _ => True

/-- It depends on the factories of the objects only. -/
theorem Nests.congr {P : StateTable F I} {d d' : Device F} (hfac : d'.factoryOf = d.factoryOf)
    {x y : Frame F} (h : Nests P d x y) : Nests P d' x y := by
  intro hsw
  have hold := h hsw
  cases x with
  | install j => exact ⟨hold.1, fun f hf => hold.2 f (hfac ▸ hf)⟩
  | code j cs => exact hold
  | stateFactory f => exact hold
  | handleExit => trivial
  | unlock j => trivial

/-- Timers are started in constructors that are calm. -/
def TimersInInit : List (Frame F) → Prop
  | [] => True
  | .code o cs :: rest =>
    ((∃ g, .startTimer g ∈ cs) → Calm cs ∧ rest.head? = some (.install o)) ∧ TimersInInit rest
  | .handleExit :: rest | .stateFactory _ :: rest | .install _ :: rest | .unlock _ :: rest =>
    TimersInInit rest

/-- The thread holding the lock is in the calm constructor of an object, or
past it. -/
def Building (stack : List (Frame F)) (o : ℕ) : Prop :=
  ∃ rest, stack = .install o :: rest ∨ ∃ cs, Calm cs ∧ stack = .code o cs :: .install o :: rest

/-- **What every run keeps**, whoever enters `switch` when. -/
structure Shape (P : StateTable F I) (d : Device F) (log : List Effect) : Prop where
  /-- What was installed, is being made, runs, or switches, was made. -/
  made : ∀ o, .start o ∈ log → o < d.objects.length
  bound : ∀ o, .install o ∈ d.stack → o < d.objects.length
  code : ∀ o cs, .code o cs ∈ d.stack → o < d.objects.length
  thread : ∀ t ∈ d.threads, ∀ o ∈ t.object, o < d.objects.length
  /-- What was installed is not being made. -/
  fresh : ∀ o, .start o ∈ log → .install o ∉ d.stack
  nested : d.stack.Pairwise (Nests P d)
  /-- The objects of an inert class have no timers and do not switch. -/
  inert : ∀ o f, d.factoryOf o = some f → P.Inert f → ¬d.Active o ∧
    ∀ cs, .code o cs ∈ d.stack → ∀ c ∈ cs, (∀ g, c ≠ .switch g) ∧ ∀ g, c ≠ .startTimer g
  timers : TimersInInit d.stack
  /-- An object that starts a timer while it is made gets installed. -/
  building : ∀ o, .install o ∈ d.stack → d.Active o → Building d.stack o
  /-- One call of an object's `switch` at most is past the flag. -/
  waits : ∀ o, d.threads.countP (DeviceThread.waits o) ≤ if d.flagOf o then 1 else 0

/-! ### How a shape changes -/

variable {P : StateTable F I} {d : Device F} {log : List Effect}

theorem Shape.lt_of_active (h : Shape P d log) {o : ℕ} (ho : d.Active o) :
    o < d.objects.length := by
  rcases ho with ho | ⟨t, ht, hto⟩
  · exact lt_of_timerOf ho
  · exact h.thread t ht o hto

theorem TimersInInit.tail {x : Frame F} {rest : List (Frame F)} (h : TimersInInit (x :: rest)) :
    TimersInInit rest := by
  cases x with
  | code o cs => exact h.2
  | handleExit => exact h
  | stateFactory f => exact h
  | install o => exact h
  | unlock o => exact h

/-- The log only matters for what was installed. -/
theorem Shape.log_mono (h : Shape P d log) {log' : List Effect}
    (hlog : ∀ o, .start o ∈ log' → .start o ∈ log) : Shape P d log' :=
  { h with
    made := fun o ho => h.made o (hlog o ho)
    fresh := fun o ho => h.fresh o (hlog o ho) }

/-- **A call ends that is not an installation.** -/
theorem Shape.tail (h : Shape P d log) {x : Frame F} {rest : List (Frame F)}
    (hs : d.stack = x :: rest) (hx : ∀ o, x ≠ .install o) :
    Shape P { d with stack := rest } log := by
  have hmem : ∀ {y}, y ∈ rest → y ∈ d.stack := fun hy => hs ▸ List.mem_cons_of_mem _ hy
  refine { h with
    bound := fun o ho => h.bound o (hmem ho)
    code := fun o cs ho => h.code o cs (hmem ho)
    fresh := fun o ho hin => h.fresh o ho (hmem hin)
    nested := (hs ▸ h.nested).tail
    inert := fun o f ho hf =>
      ⟨(h.inert o f ho hf).1, fun cs hc => (h.inert o f ho hf).2 cs (hmem hc)⟩
    timers := (hs ▸ h.timers).tail
    building := fun o ho hact => ?_ }
  obtain ⟨rest', heq | ⟨cs, hcalm, heq⟩⟩ := h.building o (hmem ho) hact
  · exact absurd (List.cons.inj (hs.symm.trans heq)).1 (hx o)
  · exact ⟨rest', Or.inl (List.cons.inj (hs.symm.trans heq)).2⟩

/-- **A method goes on**, with some of its commands left. -/
theorem Shape.code_mono (h : Shape P d log) {o : ℕ} {cs cs' : List (Command F)}
    {rest : List (Frame F)} (hs : d.stack = .code o cs :: rest) (hcs : ∀ c ∈ cs', c ∈ cs) :
    Shape P { d with stack := .code o cs' :: rest } log := by
  have hold : ∀ {y}, y ∈ rest → y ∈ d.stack := fun hy => hs ▸ List.mem_cons_of_mem _ hy
  have hinst : ∀ {j}, .install j ∈ (.code o cs' :: rest : List (Frame F)) → .install j ∈ d.stack :=
    fun hj => hold ((List.mem_cons.mp hj).resolve_left (by simp))
  have hcode : ∀ {j cs₀}, .code j cs₀ ∈ (.code o cs' :: rest : List (Frame F)) →
      ∃ cs₁, .code j cs₁ ∈ d.stack ∧ ∀ c ∈ cs₀, c ∈ cs₁ := by
    intro j cs₀ hj
    rcases List.mem_cons.mp hj with heq | hj
    · obtain ⟨rfl, rfl⟩ := Frame.code.inj heq
      exact ⟨cs, hs ▸ List.mem_cons_self, hcs⟩
    · exact ⟨cs₀, hold hj, fun _ => id⟩
  refine { h with
    bound := fun j hj => h.bound j (hinst hj)
    code := fun j cs₀ hj => ?_
    fresh := fun j hj hin => h.fresh j hj (hinst hin)
    nested := ?_
    inert := fun j f hj hf => ⟨(h.inert j f hj hf).1, fun cs₀ hc c hcm => ?_⟩
    timers := ?_
    building := fun j hj hact => ?_ }
  · obtain ⟨cs₁, hmem, -⟩ := hcode hj
    exact h.code j cs₁ hmem
  · obtain ⟨hhead, htail⟩ := List.pairwise_cons.mp (hs ▸ h.nested)
    exact List.pairwise_cons.mpr ⟨fun y hy hsw g hg => hhead y hy hsw g (hcs _ hg), htail⟩
  · obtain ⟨cs₁, hmem, hsub⟩ := hcode hc
    exact (h.inert j f hj hf).2 cs₁ hmem c (hsub c hcm)
  · obtain ⟨hhead, htail⟩ : TimersInInit (.code o cs :: rest) := hs ▸ h.timers
    refine ⟨fun ⟨g, hg⟩ => ?_, htail⟩
    obtain ⟨hcalm, hnext⟩ := hhead ⟨g, hcs _ hg⟩
    exact ⟨fun c hc => hcalm c (hcs c hc), hnext⟩
  · obtain ⟨rest', heq | ⟨cs₁, hcalm, heq⟩⟩ := h.building j (hinst hj) hact
    · cases (List.cons.inj (hs.symm.trans heq)).1
    · obtain ⟨hfr, rfl⟩ := List.cons.inj (hs.symm.trans heq)
      obtain ⟨rfl, rfl⟩ := Frame.code.inj hfr
      exact ⟨rest', Or.inr ⟨cs', fun c hc => hcalm c (hcs c hc), rfl⟩⟩

/-- **An object changes** without starting a timer or losing its flag. -/
theorem Shape.setObject (h : Shape P d log) {o : ℕ} {obj : StateObject F}
    (hobj : d.objects[o]? = some obj) (obj' : StateObject F) (hfactory : obj'.factory = obj.factory)
    (htimer : obj'.timer = none ∨ obj'.timer = obj.timer)
    (hflag : obj.switching = true → obj'.switching = true) :
    Shape P { d with objects := d.objects.set o obj' } log := by
  have hlen : (d.objects.set o obj').length = d.objects.length := List.length_set
  have hfac := factoryOf_set hobj hfactory
  have hact : ∀ {j}, ({ d with objects := d.objects.set o obj' } : Device F).Active j →
      d.Active j := by
    rintro j (hj | hj)
    · rw [timerOf_set hobj] at hj
      split at hj
      · rename_i heq
        subst heq
        rcases htimer with ht | ht
        · exact absurd ht hj
        · exact Or.inl (by rwa [Device.timerOf, hobj, Option.bind_some, ← ht])
      · exact Or.inl hj
    · exact Or.inr hj
  refine { h with
    made := fun j hj => hlen ▸ h.made j hj
    bound := fun j hj => hlen ▸ h.bound j hj
    thread := fun t ht j hj => hlen ▸ h.thread t ht j hj
    code := fun j cs hj => hlen ▸ h.code j cs hj
    nested := h.nested.imp (Nests.congr hfac)
    inert := fun j f hj hf => ?_
    building := fun j hj hjact => h.building j hj (hact hjact)
    waits := fun j => (h.waits j).trans ?_ }
  · rw [hfac] at hj
    exact ⟨fun hjact => (h.inert j f hj hf).1 (hact hjact), (h.inert j f hj hf).2⟩
  · rw [flagOf_set hobj]
    by_cases hj : j = o
    · subst hj
      rw [if_pos rfl, Device.flagOf, hobj]
      by_cases hfl : obj.switching = true
      · rw [hflag hfl, Option.any_some, hfl]
      · rw [Option.any_some, Bool.eq_false_iff.mpr hfl]
        exact Nat.zero_le _
    · rw [if_neg hj]

/-- **A timer is started**, by a constructor. -/
theorem Shape.startTimer (h : Shape P d log) {o : ℕ} {obj : StateObject F} {g : F}
    {cs : List (Command F)} {rest : List (Frame F)}
    (hs : d.stack = .code o (.startTimer g :: cs) :: rest) (hobj : d.objects[o]? = some obj) :
    Shape P { d with objects := d.objects.set o { obj with timer := some g } } log := by
  have hlen : (d.objects.set o { obj with timer := some g }).length = d.objects.length :=
    List.length_set
  have hfac : ({ d with objects := d.objects.set o { obj with timer := some g } } :
      Device F).factoryOf = d.factoryOf := factoryOf_set hobj rfl
  have htop : .code o (.startTimer g :: cs) ∈ d.stack := hs ▸ List.mem_cons_self
  have hact : ∀ {j}, ({ d with objects := d.objects.set o { obj with timer := some g } } :
      Device F).Active j → j = o ∨ d.Active j := by
    rintro j (hj | hj)
    · rw [timerOf_set hobj] at hj
      split at hj
      · exact Or.inl ‹_›
      · exact Or.inr (Or.inl hj)
    · exact Or.inr (Or.inr hj)
  refine { h with
    made := fun j hj => hlen ▸ h.made j hj
    bound := fun j hj => hlen ▸ h.bound j hj
    thread := fun t ht j hj => hlen ▸ h.thread t ht j hj
    code := fun j cs hj => hlen ▸ h.code j cs hj
    nested := h.nested.imp (Nests.congr hfac)
    inert := fun j f hj hf => ?_
    building := fun j hj hjact => ?_
    waits := fun j => (h.waits j).trans ?_ }
  · rw [hfac] at hj
    refine ⟨fun hjact => ?_, (h.inert j f hj hf).2⟩
    rcases hact hjact with rfl | hjact
    · exact ((h.inert j f hj hf).2 _ htop _ List.mem_cons_self).2 g rfl
    · exact (h.inert j f hj hf).1 hjact
  · rcases hact hjact with rfl | hjact
    · -- the timer's object is the one whose constructor is running
      obtain ⟨hhead, -⟩ : TimersInInit (.code j (.startTimer g :: cs) :: rest) := hs ▸ h.timers
      obtain ⟨hcalm, hnext⟩ := hhead ⟨g, List.mem_cons_self⟩
      obtain ⟨rest', rfl⟩ := List.head?_eq_some_iff.mp hnext
      exact ⟨rest', Or.inr ⟨_, hcalm, hs⟩⟩
    · exact h.building j hj hjact
  · rw [flagOf_set hobj]
    by_cases hj : j = o
    · subst hj
      rw [if_pos rfl, Device.flagOf, hobj, Option.any_some]
    · rw [if_neg hj]

/-- With a switch or an exception on top, no object with a timer is being
made. -/
theorem Shape.not_active_of_install (h : Shape P d log) {o : ℕ} {c : Command F}
    {cs : List (Command F)} {rest : List (Frame F)} (hs : d.stack = .code o (c :: cs) :: rest)
    (hc : c = .raise ∨ ∃ g, c = .switch g) {j : ℕ} (hj : .install j ∈ d.stack) : ¬d.Active j := by
  intro hact
  obtain ⟨rest', heq | ⟨cs', hcalm, heq⟩⟩ := h.building j hj hact
  · cases (List.cons.inj (hs.symm.trans heq)).1
  · obtain ⟨-, rfl⟩ := Frame.code.inj (List.cons.inj (hs.symm.trans heq)).1
    obtain ⟨hraise, hswitch⟩ := hcalm c List.mem_cons_self
    rcases hc with rfl | ⟨g, rfl⟩
    · exact hraise rfl
    · exact hswitch g rfl

/-- **An object enters `switch`.** -/
theorem Shape.enter (h : Shape P d log) {o : ℕ} {g : F} {cs : List (Command F)}
    {rest : List (Frame F)} (hs : d.stack = .code o (.switch g :: cs) :: rest) :
    Shape P { d with stack := .handleExit :: .stateFactory g :: .code o cs :: rest } log := by
  have hcode := h.code_mono hs fun c (hc : c ∈ cs) => List.mem_cons_of_mem _ hc
  have hmem : ∀ {y : Frame F}, y ∈ (.handleExit :: .stateFactory g :: .code o cs :: rest) →
      y = .handleExit ∨ y = .stateFactory g ∨ y ∈ (.code o cs :: rest : List (Frame F)) := by
    intro y hy
    exact (List.mem_cons.mp hy).imp_right List.mem_cons.mp
  have hinst : ∀ {j}, .install j ∈ (.handleExit :: .stateFactory g :: .code o cs :: rest :
      List (Frame F)) → .install j ∈ (.code o cs :: rest : List (Frame F)) := fun hj => by
    simpa using hj
  have hframe : ∀ {j cs₀}, .code j cs₀ ∈ (.handleExit :: .stateFactory g :: .code o cs :: rest :
      List (Frame F)) → .code j cs₀ ∈ (.code o cs :: rest : List (Frame F)) := fun hj => by
    simpa using hj
  refine { hcode with
    bound := fun j hj => hcode.bound j (hinst hj)
    code := fun j cs₀ hj => hcode.code j cs₀ (hframe hj)
    fresh := fun j hj hin => hcode.fresh j hj (hinst hin)
    nested := ?_
    inert := fun j f hj hf => ⟨(hcode.inert j f hj hf).1, fun cs₀ hc =>
      (hcode.inert j f hj hf).2 cs₀ (hframe hc)⟩
    timers := hcode.timers
    building := fun j hj hact => ?_ }
  · refine List.pairwise_cons.mpr ⟨fun y _ _ => trivial, List.pairwise_cons.mpr ⟨?_, hcode.nested⟩⟩
    intro y hy hsw
    rcases List.mem_cons.mp hy with rfl | hy
    · exact absurd hsw id
    · obtain ⟨hhead, -⟩ := List.pairwise_cons.mp (hs ▸ h.nested)
      exact hhead y hy hsw g List.mem_cons_self
  · refine absurd hact (h.not_active_of_install hs (Or.inr ⟨g, rfl⟩) (hs ▸ ?_))
    exact List.mem_cons_of_mem _ ((List.mem_cons.mp (hinst hj)).resolve_left (by simp))

/-- **A new stack without an installation**, which no constructor is in. -/
theorem Shape.newStack (h : Shape P d log) {stack : List (Frame F)}
    (hnested : stack.Pairwise (Nests P d)) (hinst : ∀ o, .install o ∉ stack)
    (hcode : ∀ o cs, .code o cs ∈ stack → o < d.objects.length ∧
      (∀ c ∈ cs, ∀ g, c ≠ .startTimer g) ∧
        ∀ f, d.factoryOf o = some f → P.Inert f → ∀ c ∈ cs, ∀ g, c ≠ .switch g) :
    Shape P { d with stack := stack } log := by
  refine { h with
    bound := fun o ho => absurd ho (hinst o)
    code := fun o cs ho => (hcode o cs ho).1
    fresh := fun o _ => hinst o
    nested := hnested
    inert := fun o f ho hf => ⟨(h.inert o f ho hf).1, fun cs hc c hcm =>
      ⟨(hcode o cs hc).2.2 f ho hf c hcm, (hcode o cs hc).2.1 c hcm⟩⟩
    timers := ?_
    building := fun o ho => absurd ho (hinst o) }
  have hno : ∀ o cs, .code o cs ∈ stack → ¬∃ g, .startTimer g ∈ cs := fun o cs hmem ⟨g, hg⟩ =>
    (hcode o cs hmem).2.1 _ hg g rfl
  clear hnested hinst hcode
  induction stack with
  | nil => trivial
  | cons x rest ih =>
    have hrest := ih fun o cs hmem => hno o cs (List.mem_cons_of_mem _ hmem)
    cases x with
    | code o cs => exact ⟨fun hex => absurd hex (hno o cs List.mem_cons_self), hrest⟩
    | handleExit => exact hrest
    | stateFactory f => exact hrest
    | install o => exact hrest
    | unlock o => exact hrest

/-! ### A new object -/

/-- Nothing waits for the new object, and nothing else has changed. -/
theorem Shape.active_newObject (h : Shape P d log) {f : F} {j : ℕ}
    (hact : ({ d with objects := d.objects ++ [⟨f, false, false, none⟩] } : Device F).Active j) :
    j ≠ d.objects.length ∧ d.Active j := by
  obtain hj | ⟨t, htm, htj⟩ := hact
  · rw [timerOf_make] at hj
    split at hj
    · exact absurd rfl hj
    · exact ⟨‹_›, Or.inl hj⟩
  · have hlt := h.thread t htm j htj
    exact ⟨by omega, Or.inr ⟨t, htm, htj⟩⟩

theorem factoryOf_newObject {f f' : F} {j : ℕ}
    (hf : ({ d with objects := d.objects ++ [⟨f, false, false, none⟩] } : Device F).factoryOf j =
      some f') :
    (j = d.objects.length ∧ f' = f) ∨ (j < d.objects.length ∧ d.factoryOf j = some f') := by
  rw [factoryOf_make] at hf
  split at hf
  · exact Or.inl ⟨‹_›, (Option.some.inj hf).symm⟩
  · exact Or.inr ⟨lt_of_factoryOf hf, hf⟩

/-- The frames that are on the stack stay nested. -/
theorem Shape.nested_newObject (h : Shape P d log) {f : F} {rest : List (Frame F)}
    (hrest : ∀ y ∈ rest, y ∈ d.stack) (hnested : rest.Pairwise (Nests P d)) :
    rest.Pairwise (Nests P { d with objects := d.objects ++ [⟨f, false, false, none⟩] }) := by
  refine hnested.imp_of_mem fun {a b} ha _ hab hsw => ?_
  have hnest := hab hsw
  cases a with
  | install j =>
    refine ⟨hnest.1, fun f' hf' => ?_⟩
    have hlt := h.bound j (hrest _ ha)
    obtain ⟨rfl, -⟩ | ⟨-, hf'⟩ := factoryOf_newObject hf'
    · exact absurd hlt (Nat.lt_irrefl _)
    · exact hnest.2 f' hf'
  | code j cs => exact hnest
  | stateFactory f' => exact hnest
  | handleExit => trivial
  | unlock j => trivial

/-- **The factory makes an object.** -/
theorem Shape.build (h : Shape P d log) (ht : Tame P) {f : F} {rest : List (Frame F)}
    (hs : d.stack = .stateFactory f :: rest) (x : I) :
    Shape P
      { d with
        objects := d.objects ++ [⟨f, false, false, none⟩]
        stack := .code d.objects.length (P.code .init f x) :: .install d.objects.length :: rest }
      log := by
  set n := d.objects.length with hn
  have hold : ∀ {y}, y ∈ rest → y ∈ d.stack := fun hy => hs ▸ List.mem_cons_of_mem _ hy
  have hfac : ∀ j f', ({ d with objects := d.objects ++ [⟨f, false, false, none⟩] } :
      Device F).factoryOf j = some f' → (j = n ∧ f' = f) ∨ (j < n ∧ d.factoryOf j = some f') :=
    fun j f' hj => factoryOf_newObject hj
  have hcode : ∀ {j cs}, .code j cs ∈ (.code n (P.code .init f x) :: .install n :: rest :
      List (Frame F)) → (j = n ∧ cs = P.code .init f x) ∨ .code j cs ∈ rest := by
    intro j cs hj
    rcases List.mem_cons.mp hj with heq | hj
    · exact Or.inl (Frame.code.inj heq)
    · exact Or.inr ((List.mem_cons.mp hj).resolve_left (by simp))
  have hinst : ∀ {j}, .install j ∈ (.code n (P.code .init f x) :: .install n :: rest :
      List (Frame F)) → j = n ∨ .install j ∈ rest := fun hj => by simpa using hj
  have hlen :
      (d.objects ++ [(⟨f, false, false, none⟩ : StateObject F)]).length = n + 1 := by simp [hn]
  have hnested := hs ▸ h.nested
  refine ⟨fun j hj => ?_, fun j hj => ?_, fun j cs hj => ?_, fun t htm j hj => ?_,
    fun j hj hin => ?_, ?_, fun j f' hj hf' => ?_, ?_, fun j hj hjact => ?_, fun j => ?_⟩
  · exact hlen ▸ (h.made j hj).trans (Nat.lt_succ_self n)
  · rcases hinst hj with rfl | hj
    · exact hlen ▸ Nat.lt_succ_self _
    · exact hlen ▸ (h.bound j (hold hj)).trans (Nat.lt_succ_self n)
  · rcases hcode hj with ⟨rfl, -⟩ | hj
    · exact hlen ▸ Nat.lt_succ_self _
    · exact hlen ▸ (h.code j cs (hold hj)).trans (Nat.lt_succ_self n)
  · exact hlen ▸ (h.thread t htm j hj).trans (Nat.lt_succ_self n)
  · rcases hinst hin with rfl | hin
    · exact Nat.lt_irrefl _ (h.made _ hj)
    · exact h.fresh j hj (hold hin)
  · obtain ⟨hhead, htail⟩ := List.pairwise_cons.mp hnested
    refine List.pairwise_cons.mpr ⟨fun y hy hsw g hg => ?_, List.pairwise_cons.mpr
      ⟨fun y hy hsw => ⟨?_, fun f' hf' => ?_⟩, h.nested_newObject (fun y hy => hold hy) htail⟩⟩
    · exact ⟨f, x, hg⟩
    · rintro rfl
      exact Nat.lt_irrefl _ (h.bound _ (hold hy))
    · rcases hfac n f' hf' with ⟨-, rfl⟩ | ⟨hlt, -⟩
      · exact hhead y hy hsw
      · exact absurd hlt (Nat.lt_irrefl _)
  · refine ⟨fun hjact => ?_, fun cs hc => ?_⟩
    · obtain ⟨hne, hjact⟩ := h.active_newObject hjact
      rcases hfac j f' hj with ⟨heq, -⟩ | ⟨-, hj⟩
      · exact hne heq
      · exact (h.inert j f' hj hf').1 hjact
    · rcases hfac j f' hj with ⟨rfl, rfl⟩ | ⟨hlt, hj⟩
      · rcases hcode hc with ⟨-, rfl⟩ | hc
        · exact hf' .init x
        · exact absurd (h.code _ cs (hold hc)) (Nat.lt_irrefl _)
      · rcases hcode hc with ⟨rfl, -⟩ | hc
        · exact absurd hlt (Nat.lt_irrefl _)
        · exact (h.inert j f' hj hf').2 cs (hold hc)
  · constructor
    · rintro ⟨g, hg⟩
      exact ⟨(ht.timer _ _ _ _ hg).2, rfl⟩
    · exact (hs ▸ h.timers : TimersInInit (.stateFactory f :: rest))
  · obtain ⟨hne, hjact⟩ := h.active_newObject hjact
    obtain ⟨rest', heq | ⟨cs, -, heq⟩⟩ := h.building j (hold ((hinst hj).resolve_left hne)) hjact
    · cases (List.cons.inj (hs.symm.trans heq)).1
    · cases (List.cons.inj (hs.symm.trans heq)).1
  · rw [Device.flagOf, getElem?_make]
    by_cases hj : j = n
    · rw [if_pos hj, Option.any_some, if_neg Bool.false_ne_true]
      refine Nat.le_zero.mpr (List.countP_eq_zero.mpr fun t htm htw => ?_)
      cases t with
      | stateSwitch j' g =>
        obtain rfl : j' = j := of_decide_eq_true htw
        exact absurd (h.thread _ htm j' rfl) (by omega)
      | timer j' g => cases htw
      | flashDefault => cases htw
      | deviceSwitch g => cases htw
    · rw [if_neg hj]
      exact h.waits j

/-- **The object is installed** and started. -/
theorem Shape.install (h : Shape P d log) (ht : Tame P) {o : ℕ} {obj : StateObject F}
    {rest : List (Frame F)} (hs : d.stack = .install o :: rest) (hobj : d.objects[o]? = some obj)
    (x : I) :
    Shape P { d with current := some o, stack := .code o (P.code .start obj.factory x) :: rest }
      (.start o :: log) := by
  have hold : ∀ {y}, y ∈ rest → y ∈ d.stack := fun hy => hs ▸ List.mem_cons_of_mem _ hy
  have hlt : o < d.objects.length := (List.getElem?_eq_some_iff.mp hobj).1
  have hfac : d.factoryOf o = some obj.factory := by rw [Device.factoryOf, hobj, Option.map_some]
  obtain ⟨hhead, htail⟩ := List.pairwise_cons.mp (hs ▸ h.nested)
  have hcode : ∀ {j cs}, .code j cs ∈ (.code o (P.code .start obj.factory x) :: rest :
      List (Frame F)) → (j = o ∧ cs = P.code .start obj.factory x) ∨ .code j cs ∈ rest := fun hj =>
    (List.mem_cons.mp hj).imp_left fun heq => Frame.code.inj heq
  have hinst : ∀ {j}, .install j ∈ (.code o (P.code .start obj.factory x) :: rest :
      List (Frame F)) → .install j ∈ rest := fun hj => (List.mem_cons.mp hj).resolve_left (by simp)
  have hone : .install o ∉ rest := fun hin => (hhead _ hin trivial).1 rfl
  refine { h with
    made := fun j hj => ?_
    bound := fun j hj => h.bound j (hold (hinst hj))
    code := fun j cs hj => ?_
    fresh := fun j hj hin => ?_
    nested := ?_
    inert := fun j f hj hf => ⟨(h.inert j f hj hf).1, fun cs hc => ?_⟩
    timers := ?_
    building := fun j hj hact => ?_ }
  · rcases List.mem_cons.mp hj with heq | hj
    · exact Effect.start.inj heq ▸ hlt
    · exact h.made j hj
  · rcases hcode hj with ⟨rfl, -⟩ | hj
    · exact hlt
    · exact h.code j cs (hold hj)
  · rcases List.mem_cons.mp hj with heq | hj
    · exact hone (Effect.start.inj heq ▸ hinst hin)
    · exact h.fresh j hj (hold (hinst hin))
  · refine List.pairwise_cons.mpr ⟨fun y hy hsw g hg => ?_, htail⟩
    exact absurd rfl ((ht.fallback _ ((hhead y hy hsw).2 _ hfac) .start x _ hg).1 g)
  · rcases hcode hc with ⟨rfl, rfl⟩ | hc
    · obtain rfl := Option.some.inj (hfac.symm.trans hj)
      exact hf .start x
    · exact (h.inert j f hj hf).2 cs (hold hc)
  · constructor
    · rintro ⟨g, hg⟩
      exact absurd (ht.timer _ _ _ _ hg).1 (by simp)
    · exact (hs ▸ h.timers : TimersInInit (.install o :: rest))
  · obtain ⟨rest', heq | ⟨cs, -, heq⟩⟩ := h.building j (hold (hinst hj)) hact
    · obtain ⟨hfr, -⟩ := List.cons.inj (hs.symm.trans heq)
      exact absurd (hinst hj) (Frame.install.inj hfr ▸ hone)
    · cases (List.cons.inj (hs.symm.trans heq)).1

/-- **The pool changes**, with threads only of objects that had one or a
timer. -/
theorem Shape.setThreads (h : Shape P d log) {threads : List (DeviceThread F)}
    (hobj : ∀ t ∈ threads, ∀ o ∈ t.object, d.Active o)
    (hwaits : ∀ o, threads.countP (DeviceThread.waits o) ≤ if d.flagOf o then 1 else 0) :
    Shape P { d with threads := threads } log := by
  have hact : ∀ {j}, ({ d with threads := threads } : Device F).Active j → d.Active j := by
    rintro j (hj | ⟨t, ht, hj⟩)
    · exact Or.inl hj
    · exact hobj t ht j hj
  exact { h with
    thread := fun t ht o ho => h.lt_of_active (hobj t ht o ho)
    inert := fun o f ho hf =>
      ⟨fun hact' => (h.inert o f ho hf).1 (hact hact'), (h.inert o f ho hf).2⟩
    building := fun o ho hact' => h.building o ho (hact hact')
    waits := hwaits }

/-- A call on a free lock is to a method of the current object, or to
`Device.switch`. -/
theorem Shape.begin (h : Shape P d log) (ht : Tame P) {o : ℕ} {obj : StateObject F} {m : Method}
    (hobj : d.objects[o]? = some obj) (hm : m ≠ .init) (x : I) {tail : List (Frame F)}
    (htail : ∀ y ∈ tail, y = .unlock o) :
    Shape P { d with stack := .code o (P.code m obj.factory x) :: tail } log := by
  have hfac : d.factoryOf o = some obj.factory := by rw [Device.factoryOf, hobj, Option.map_some]
  refine h.newStack (List.pairwise_cons.mpr ⟨fun y hy hsw => ?_, ?_⟩) (fun j hj => ?_)
    fun j cs hj => ?_
  · exact absurd (htail y hy ▸ hsw : (Frame.unlock o : Frame F).InSwitch) id
  · exact List.pairwise_of_forall_mem_list fun a _ b hb hsw =>
      absurd (htail b hb ▸ hsw : (Frame.unlock o : Frame F).InSwitch) id
  · rcases List.mem_cons.mp hj with heq | hj
    · cases heq
    · cases htail _ hj
  · rcases List.mem_cons.mp hj with heq | hj
    · obtain ⟨rfl, rfl⟩ := Frame.code.inj heq
      refine ⟨(List.getElem?_eq_some_iff.mp hobj).1, ?_, fun f hf hin c hc => ?_⟩
      · rintro c hc g rfl
        exact hm (ht.timer _ _ _ _ hc).1
      · obtain rfl := Option.some.inj (hfac.symm.trans hf)
        exact (hin m x c hc).1
    · cases htail _ hj

/-- A thread ends. -/
theorem Shape.eraseThread (h : Shape P d log) (k : ℕ) :
    Shape P { d with threads := advance d.threads k none } log := by
  refine h.setThreads (fun t htm o ho => ?_) fun o => ?_
  · exact Or.inr ⟨t, List.mem_of_mem_eraseIdx htm, ho⟩
  · exact (List.Sublist.countP_le (List.eraseIdx_sublist _ _)).trans (h.waits o)

/-- A timer that runs out becomes a thread. -/
theorem Shape.fire (h : Shape P d log) {o : ℕ} {obj : StateObject F} {f : F}
    (hobj : d.objects[o]? = some obj) (htimer : obj.timer = some f) :
    Shape P { d with
      objects := d.objects.set o { obj with timer := none }
      threads := d.threads ++ [.timer o f] } log := by
  have hact : d.Active o := Or.inl (by rw [Device.timerOf, hobj, Option.bind_some, htimer]; simp)
  have hpush : Shape P { d with threads := d.threads ++ [.timer o f] } log := by
    refine h.setThreads (fun t htm o' ho' => ?_) fun o' => ?_
    · rcases List.mem_append.mp htm with htm | htm
      · exact Or.inr ⟨t, htm, ho'⟩
      · obtain rfl := List.mem_singleton.mp htm
        obtain rfl := Option.some.inj ho'
        exact hact
    · rw [List.countP_append]
      exact h.waits o'
  exact hpush.setObject hobj _ rfl (Or.inl rfl) id

/-- The first thread goes on to its switch. -/
theorem Shape.flashDefault (h : Shape P d log) {k : ℕ} (hk : d.threads[k]? = some .flashDefault) :
    Shape P
      { d with threads := advance d.threads k (some (.deviceSwitch P.flashDefault)) } log := by
  refine h.setThreads (fun t htm o ho => ?_) fun o => ?_
  · rcases (mem_advance hk).mp htm with heq | htm
    · obtain rfl := Option.some.inj heq
      cases ho
    · exact Or.inr ⟨t, (mem_iff_eq_or_mem_eraseIdx hk).mpr (Or.inr htm), ho⟩
  · rw [countP_advance _ hk]
    have hold := h.waits o
    rw [countP_eraseIdx _ hk] at hold
    simpa [DeviceThread.waits] using hold

/-- A timer's thread goes on to its switch, and sets the flag of its object. -/
theorem Shape.timerSwitch (h : Shape P d log) {k o : ℕ} {f : F} {obj : StateObject F}
    (hk : d.threads[k]? = some (.timer o f)) (hobj : d.objects[o]? = some obj)
    (hflag : obj.switching = false) :
    Shape P { d with
      objects := d.objects.set o { obj with switching := true }
      threads := advance d.threads k (some (.stateSwitch o f)) } log := by
  have hset := h.setObject hobj { obj with switching := true } rfl (Or.inr rfl) fun _ => rfl
  have hthread : .timer o f ∈ d.threads := List.mem_of_getElem? hk
  refine hset.setThreads (fun t htm o' ho' => ?_) fun o' => ?_
  · refine Or.inr ?_
    rcases (mem_advance hk).mp htm with heq | htm
    · obtain rfl := Option.some.inj heq
      obtain rfl := Option.some.inj ho'
      exact ⟨_, hthread, rfl⟩
    · exact ⟨t, (mem_iff_eq_or_mem_eraseIdx hk).mpr (Or.inr htm), ho'⟩
  · have hold := h.waits o'
    rw [countP_eraseIdx _ hk] at hold
    rw [countP_advance _ hk, flagOf_set hobj]
    by_cases heq : o' = o
    · subst heq
      rw [Device.flagOf, hobj, Option.any_some, hflag] at hold
      simp only [DeviceThread.waits, Bool.false_eq_true, if_false, add_zero] at hold
      simp [DeviceThread.waits, Nat.le_zero.mp hold]
    · have hne : o ≠ o' := fun h' => heq h'.symm
      simpa [DeviceThread.waits, heq, hne] using hold

/-- **Every rule keeps the shape.** -/
theorem shape_rule (ht : Tame P) {j : DeviceStep I} {d' : Device F} {e : Option Effect}
    (h : Shape P d log) (hrule : Rule P d j d' e) : Shape P d' (e.toList ++ log) := by
  have hquiet :
      ∀ {e' : Effect}, (∀ o, e' ≠ .start o) → ∀ o, .start o ∈ e' :: log → .start o ∈ log :=
    fun hne o ho => (List.mem_cons.mp ho).resolve_left fun heq => hne o heq.symm
  have hnil :
      ∀ {f : F}, Shape P { d with stack := [.handleExit, .stateFactory f] } log := fun {f} =>
    h.newStack (by simp [Nests]) (by simp) (by simp)
  cases hrule with
  | pop hs => exact h.tail hs (by simp)
  | unlock hs => exact h.tail hs (by simp)
  | skip hs => exact h.code_mono hs fun c hc => List.mem_cons_of_mem _ hc
  | status hs =>
    exact (h.code_mono hs fun c hc => List.mem_cons_of_mem _ hc).log_mono (hquiet (by simp))
  | @mark x o obj cs rest hs hobj =>
    exact (h.setObject hobj { obj with exiting := true } rfl (Or.inr rfl) id).code_mono hs
      fun c hc => List.mem_cons_of_mem _ hc
  | startTimer hs hobj =>
    exact (h.startTimer hs hobj).code_mono hs fun c hc => List.mem_cons_of_mem _ hc
  | @cancelTimer x o obj cs rest hs hobj =>
    exact (h.setObject hobj { obj with timer := none } rfl (Or.inl rfl) id).code_mono hs
      fun c hc => List.mem_cons_of_mem _ hc
  | @switch x o obj f cs rest hs hobj hflag =>
    exact (h.setObject hobj { obj with switching := true } rfl (Or.inr rfl)
      fun _ => rfl).enter hs
  | raise hs => exact h.newStack (by simp) (by simp) (by simp)
  | exit hs =>
    refine (h.tail hs (by simp)).log_mono fun o ho => ?_
    cases hcur : d.current with
    | none => rwa [hcur] at ho
    | some o' =>
      rw [hcur] at ho
      exact hquiet (by simp) o ho
  | build hs => exact h.build ht hs _
  | install hs hobj => exact h.install ht hs hobj _
  | idle => exact h
  | @event add x o obj hs hcur hobj =>
    refine (h.begin ht hobj ?_ x (by simp)).log_mono (hquiet (by simp))
    cases add <;> simp [handler]
  | request hs hcur hobj =>
    exact (h.begin ht hobj (by simp) _ (by simp)).log_mono (hquiet (by simp))
  | fire hobj htimer => exact h.fire hobj htimer
  | flashDefault hk => exact (h.flashDefault hk).log_mono (hquiet (by simp))
  | deviceSwitch hk hs | stateSwitch hk hs => exact hnil.eraseThread _
  | timerIgnored hk hobj hflag => exact h.eraseThread _
  | timerSwitch hk hobj hflag => exact h.timerSwitch hk hobj hflag

theorem shape_start : Shape P (P.init) [] where
  made := fun o ho => absurd ho List.not_mem_nil
  bound := fun o ho => absurd ho List.not_mem_nil
  code := fun o cs ho => absurd ho List.not_mem_nil
  thread := fun t ht o ho => by
    obtain rfl := List.mem_singleton.mp ht
    cases ho
  fresh := fun o ho => absurd ho List.not_mem_nil
  nested := List.Pairwise.nil
  inert := fun o f ho => absurd ho (by simp [Device.factoryOf, init])
  timers := trivial
  building := fun o ho => absurd ho List.not_mem_nil
  waits := fun o => Nat.zero_le _

/-- What happens to a device keeps the shape. -/
theorem shape_step (ht : Tame P) {r r' : DeviceRun F} {i : DeviceInput I}
    (h : Shape P r.device r.log) (hstep : P.runStep r i = some r') : Shape P r'.device r'.log := by
  rcases runStep_cases hstep with ⟨ts, rfl, hts⟩ | ⟨j, e, rfl, hrule, hlog⟩
  · have hobj : ∀ t ∈ ts, t.object = none ∧ ∀ o, t.waits o = false := by
      intro t htm
      rcases hts t htm with rfl | ⟨kind, f, -, rfl⟩
      · exact ⟨rfl, fun _ => rfl⟩
      · exact ⟨rfl, fun _ => rfl⟩
    refine h.setThreads (fun t htm o ho => ?_) fun o => ?_
    · rcases List.mem_append.mp htm with htm | htm
      · exact Or.inr ⟨t, htm, ho⟩
      · rw [(hobj t htm).1] at ho
        cases ho
    · have hzero : ts.countP (DeviceThread.waits o) = 0 :=
        List.countP_eq_zero.mpr fun t htm => by simp [(hobj t htm).2 o]
      rw [List.countP_append, hzero]
      exact h.waits o
  · rw [hlog]
    exact shape_rule ht h hrule

end StateTable

end UsbipIce
