import UsbipIce.Worker.Device

/-!
# Where commands and timers come from

Two things are kept along every run of a device, whatever its state classes are
(`UsbipIce.StateTable.Origin`). The commands left of a running method are the
last ones of a method of the object's class, and that method is a constructor
only while the object waits to be installed. And a timer, like a thread that a
timer has started, is for a factory that some method of the table starts a timer
for.

What a property of the table says about the commands of its methods is known of
the stack and of the pool from there.
-/

namespace UsbipIce

open Lib

/-! ### Reading a device -/

namespace Device

variable {F : Type*}

/-- The `_switching` flag of an object. -/
def flagOf (d : Device F) (o : ℕ) : Bool := (d.objects[o]?).any (·.switching)

/-- The waiting timer of an object. -/
def timerOf (d : Device F) (o : ℕ) : Option F := (d.objects[o]?).bind (·.timer)

/-- The factory that made an object. -/
def factoryOf (d : Device F) (o : ℕ) : Option F := (d.objects[o]?).map (·.factory)

end Device

/-- The factory for which a timer has started the thread. -/
def DeviceThread.timedFor {F : Type*} : DeviceThread F → Option F
  | .timer _ g | .stateSwitch _ g => some g
  | .flashDefault | .deviceSwitch _ => none

namespace StateTable

variable {F I : Type*}

section Parts

variable {d : Device F} {o : ℕ} {obj : StateObject F}

theorem flagOf_set (hobj : d.objects[o]? = some obj) (obj' : StateObject F) (j : ℕ) :
    ({ d with objects := d.objects.set o obj' } : Device F).flagOf j =
      if j = o then obj'.switching else d.flagOf j := by
  rw [Device.flagOf, getElem?_set_of_some hobj, Device.flagOf]
  split <;> rfl

/-- A flag that is set stays so where the object put in place keeps it. -/
theorem flagOf_set_of_flag (hobj : d.objects[o]? = some obj) {obj' : StateObject F}
    (hobj' : obj.switching = true → obj'.switching = true) {j : ℕ} (hj : d.flagOf j = true) :
    ({ d with objects := d.objects.set o obj' } : Device F).flagOf j = true := by
  rw [flagOf_set hobj]
  split
  · rename_i heq
    rw [heq, Device.flagOf, hobj] at hj
    exact hobj' hj
  · exact hj

theorem timerOf_set (hobj : d.objects[o]? = some obj) (obj' : StateObject F) (j : ℕ) :
    ({ d with objects := d.objects.set o obj' } : Device F).timerOf j =
      if j = o then obj'.timer else d.timerOf j := by
  rw [Device.timerOf, getElem?_set_of_some hobj, Device.timerOf]
  split <;> rfl

@[simp] theorem factoryOf_set (hobj : d.objects[o]? = some obj) {obj' : StateObject F}
    (hf : obj'.factory = obj.factory) :
    ({ d with objects := d.objects.set o obj' } : Device F).factoryOf = d.factoryOf := by
  funext j
  rw [Device.factoryOf, getElem?_set_of_some hobj, Device.factoryOf]
  split
  · rename_i hj
    rw [hj, hobj]
    exact congrArg some hf
  · rfl

/-- Reading the objects after one more has been made. -/
@[simp] theorem getElem?_make (d : Device F) (f : F) (j : ℕ) :
    (d.objects ++ [⟨f, false, false, none⟩])[j]? =
      if j = d.objects.length then some ⟨f, false, false, none⟩ else d.objects[j]? := by
  by_cases hj : j = d.objects.length
  · rw [if_pos hj, hj, List.getElem?_concat_length]
  · rw [if_neg hj]
    rcases Nat.lt_or_ge j d.objects.length with hlt | hge
    · exact List.getElem?_append_left hlt
    · rw [List.getElem?_eq_none (by rw [List.length_append, List.length_singleton]; omega),
        List.getElem?_eq_none (by omega)]

@[simp] theorem timerOf_make (d : Device F) (f : F) (j : ℕ) :
    ({ d with objects := d.objects ++ [⟨f, false, false, none⟩] } : Device F).timerOf j =
      if j = d.objects.length then none else d.timerOf j := by
  rw [Device.timerOf, getElem?_make, Device.timerOf]
  split <;> rfl

@[simp] theorem factoryOf_make (d : Device F) (f : F) (j : ℕ) :
    ({ d with objects := d.objects ++ [⟨f, false, false, none⟩] } : Device F).factoryOf j =
      if j = d.objects.length then some f else d.factoryOf j := by
  rw [Device.factoryOf, getElem?_make, Device.factoryOf]
  split <;> rfl

theorem lt_of_timerOf {j : ℕ} (h : d.timerOf j ≠ none) : j < d.objects.length := by
  by_contra hge
  rw [Device.timerOf, List.getElem?_eq_none (by omega)] at h
  exact h rfl

theorem lt_of_factoryOf {j : ℕ} {f : F} (h : d.factoryOf j = some f) : j < d.objects.length := by
  obtain ⟨obj, hobj, -⟩ := Option.map_eq_some_iff.mp h
  exact (List.getElem?_eq_some_iff.mp hobj).1

@[simp] theorem factoryOf_of_getElem? (hobj : d.objects[o]? = some obj) :
    d.factoryOf o = some obj.factory := by
  rw [Device.factoryOf, hobj, Option.map_some]

end Parts

/-! ### The origin of commands and timers -/

/-- Some method starts a timer for the factory. -/
def Timed (P : StateTable F I) (g : F) : Prop := ∃ m f x, .startTimer g ∈ P.code m f x

/-- **Every running method is what is left of a method of its object's class**,
the constructor only where the object waits to be installed. -/
def Traced (P : StateTable F I) (factoryOf : ℕ → Option F) : List (Frame F) → Prop
  | [] => True
  | .code o cs :: rest =>
    (∃ m f x, factoryOf o = some f ∧ cs <:+ P.code m f x ∧
      (m = .init → rest.head? = some (.install o))) ∧ Traced P factoryOf rest
  | .handleExit :: rest | .stateFactory _ :: rest | .install _ :: rest | .unlock _ :: rest =>
    Traced P factoryOf rest

/-- **What every run keeps**, whatever the state classes are. -/
structure Origin (P : StateTable F I) (d : Device F) : Prop where
  stack : Traced P d.factoryOf d.stack
  timer : ∀ o g, d.timerOf o = some g → P.Timed g
  thread : ∀ t ∈ d.threads, ∀ g ∈ t.timedFor, P.Timed g

variable {P : StateTable F I} {d : Device F}

namespace Traced

variable {factoryOf factoryOf' : ℕ → Option F} {rest : List (Frame F)}

theorem tail {x : Frame F} (h : Traced P factoryOf (x :: rest)) : Traced P factoryOf rest := by
  match x with
  | .code o cs => exact h.2
  | .handleExit | .stateFactory f | .install o | .unlock o => exact h

theorem mono (hfac : ∀ o f, factoryOf o = some f → factoryOf' o = some f) {stack : List (Frame F)}
    (h : Traced P factoryOf stack) : Traced P factoryOf' stack := by
  induction stack with
  | nil => trivial
  | cons x rest ih =>
    match x with
    | .code o cs =>
      obtain ⟨⟨m, f, y, hf, hcs⟩, hrest⟩ := h
      exact ⟨⟨m, f, y, hfac o f hf, hcs⟩, ih hrest⟩
    | .handleExit | .stateFactory f | .install o | .unlock o => exact ih h

/-- A method goes on. -/
theorem next {o : ℕ} {c : Command F} {cs : List (Command F)}
    (h : Traced P factoryOf (.code o (c :: cs) :: rest)) :
    Traced P factoryOf (.code o cs :: rest) := by
  obtain ⟨⟨m, f, x, hf, hcs, hm⟩, hrest⟩ := h
  exact ⟨⟨m, f, x, hf, (List.suffix_cons c cs).trans hcs, hm⟩, hrest⟩

/-- The class a running method belongs to. -/
theorem of_mem {stack : List (Frame F)} (h : Traced P factoryOf stack) {o : ℕ}
    {cs : List (Command F)} (hmem : .code o cs ∈ stack) :
    ∃ m f x, factoryOf o = some f ∧ cs <:+ P.code m f x := by
  induction stack with
  | nil => exact absurd hmem List.not_mem_nil
  | cons x rest ih =>
    rcases List.mem_cons.mp hmem with rfl | hmem
    · obtain ⟨⟨m, f, x, hf, hcs, -⟩, -⟩ := h
      exact ⟨m, f, x, hf, hcs⟩
    · exact ih h.tail hmem

end Traced

/-- The objects change without a new timer. -/
theorem Origin.setObject (h : Origin P d) {o : ℕ} {obj : StateObject F}
    (hobj : d.objects[o]? = some obj) (obj' : StateObject F) (hfactory : obj'.factory = obj.factory)
    (htimer : ∀ g, obj'.timer = some g → P.Timed g) :
    Origin P { d with objects := d.objects.set o obj' } where
  stack := by
    rw [factoryOf_set hobj hfactory]
    exact h.stack
  timer := fun j g hj => by
    rw [timerOf_set hobj] at hj
    split at hj
    · exact htimer g hj
    · exact h.timer j g hj
  thread := h.thread

/-- The timers of an object that is there. -/
theorem Origin.timed (h : Origin P d) {o : ℕ} {obj : StateObject F}
    (hobj : d.objects[o]? = some obj)
    (g : F) (hg : obj.timer = some g) : P.Timed g :=
  h.timer o g (by rw [Device.timerOf, hobj, Option.bind_some, hg])

/-- A thread moves on to another one, or ends. -/
theorem Origin.advance (h : Origin P d) {k : ℕ} {t : DeviceThread F} (hk : d.threads[k]? = some t)
    {next : Option (DeviceThread F)} (hnext : ∀ t' ∈ next, ∀ g ∈ t'.timedFor, P.Timed g) :
    Origin P { d with threads := advance d.threads k next } :=
  { h with
    thread := fun t' ht' g hg => by
      rcases (mem_advance hk).mp ht' with heq | ht'
      · exact hnext t' heq g hg
      · exact h.thread t' (List.mem_of_mem_eraseIdx ht') g hg }

/-- **Every rule keeps the origin of commands and timers.** -/
theorem origin_rule {i : DeviceStep I} {d' : Device F} {e : Option Effect} (h : Origin P d)
    (hrule : Rule P d i d' e) : Origin P d' := by
  have htraced := h.stack
  -- a call on a free lock is to a method of the current object that is not its constructor
  have hbegin : ∀ {o : ℕ} {obj : StateObject F} {m : Method} (x : I), d.objects[o]? = some obj →
      m ≠ .init → ∃ m' f y, d.factoryOf o = some f ∧ P.code m obj.factory x <:+ P.code m' f y ∧
        (m' = .init → ([] : List (Frame F)).head? = some (.install o)) :=
    fun {o obj m} x hobj hm => ⟨m, obj.factory, x, factoryOf_of_getElem? hobj, List.suffix_refl _,
      fun heq => absurd heq hm⟩
  cases hrule with
  | pop hs | unlock hs | exit hs => exact { h with stack := (hs ▸ htraced).tail }
  | skip hs | status hs => exact { h with stack := (hs ▸ htraced).next }
  | @mark x o obj cs rest hs hobj =>
    have hset := h.setObject hobj { obj with exiting := true } rfl fun g hg =>
      h.timed hobj g hg
    exact { hset with stack := (hs ▸ hset.stack).next }
  | @startTimer x o obj f cs rest hs hobj =>
    have hset := h.setObject hobj { obj with timer := some f } rfl fun g hg => by
      obtain ⟨⟨m, f', y, -, hcs, -⟩, -⟩ := hs ▸ htraced
      obtain rfl := Option.some.inj hg
      exact ⟨m, f', y, hcs.subset List.mem_cons_self⟩
    exact { hset with stack := (hs ▸ hset.stack).next }
  | @cancelTimer x o obj cs rest hs hobj =>
    have hset := h.setObject hobj { obj with timer := none } rfl fun g hg =>
      absurd hg (Option.some_ne_none g).symm
    exact { hset with stack := (hs ▸ hset.stack).next }
  | @switch x o obj f cs rest hs hobj hflag =>
    have hset := h.setObject hobj { obj with switching := true } rfl fun g hg =>
      h.timed hobj g hg
    exact { hset with stack := (hs ▸ hset.stack).next }
  | raise hs => exact { h with stack := trivial }
  | @build x f rest hs =>
    refine ⟨⟨⟨.init, f, x, ?_, List.suffix_refl _, fun _ => rfl⟩, ?_⟩, fun j g hj => ?_, h.thread⟩
    · exact (factoryOf_make d f _).trans (if_pos rfl)
    · refine Traced.mono (fun j f' hj => ?_) (hs ▸ htraced).tail
      have hlt := lt_of_factoryOf hj
      exact (factoryOf_make d f j).trans (by rw [if_neg (by omega), hj])
    · have hmake := (timerOf_make d f j).symm.trans hj
      split at hmake
      · cases hmake
      · exact h.timer j g hmake
  | @install x o obj rest hs hobj =>
    refine { h with stack := ⟨⟨.start, obj.factory, x, factoryOf_of_getElem? hobj,
      List.suffix_refl _, fun heq => ?_⟩, (hs ▸ htraced).tail⟩ }
    cases heq
  | idle => exact h
  | @event add x o obj hs hcur hobj =>
    obtain ⟨m, f, y, hf, hcs, hm⟩ :=
      hbegin x hobj (m := handler add) (by cases add <;> simp [handler])
    refine { h with stack := ⟨⟨m, f, y, hf, hcs, fun heq => ?_⟩, trivial⟩ }
    cases hm heq
  | @request x o obj hs hcur hobj =>
    exact { h with stack := ⟨hbegin x hobj (m := .handleRequest) (by simp), trivial⟩ }
  | @fire o obj f hobj htimer =>
    have hset := h.setObject hobj { obj with timer := none } rfl fun g hg =>
      absurd hg (Option.some_ne_none g).symm
    refine { hset with thread := fun t ht g hg => ?_ }
    rcases List.mem_append.mp ht with ht | ht
    · exact h.thread t ht g hg
    · obtain rfl := List.mem_singleton.mp ht
      obtain rfl := Option.some.inj hg
      exact h.timed hobj f htimer
  | flashDefault hk =>
    refine h.advance hk fun t ht g hg => ?_
    obtain rfl := Option.some.inj ht
    cases hg
  | deviceSwitch hk hs | stateSwitch hk hs =>
    exact { h.advance hk (by simp) with stack := trivial }
  | timerIgnored hk hobj hflag => exact h.advance hk (by simp)
  | @timerSwitch k o f obj hk hobj hflag =>
    have hset := h.setObject hobj { obj with switching := true } rfl fun g hg =>
      h.timed hobj g hg
    refine hset.advance hk fun t ht g hg => ?_
    obtain rfl := Option.some.inj ht
    exact h.thread _ (List.mem_of_getElem? hk) g hg

/-- **A factory made is a factory kept.** -/
theorem factoryOf_rule {i : DeviceStep I} {d' : Device F} {e : Option Effect}
    (hrule : Rule P d i d' e) {o : ℕ} {f : F} (hf : d.factoryOf o = some f) :
    d'.factoryOf o = some f := by
  have hset : ∀ {o' : ℕ} {obj obj' : StateObject F}, d.objects[o']? = some obj →
      obj'.factory = obj.factory →
        ({ d with objects := d.objects.set o' obj' } : Device F).factoryOf o = some f :=
    fun hobj hfac => (congrFun (factoryOf_set hobj hfac) o).trans hf
  cases hrule with
  | pop | unlock | skip | status | raise | exit | install | idle | event | request => exact hf
  | flashDefault | deviceSwitch | stateSwitch | timerIgnored => exact hf
  | mark _ hobj | startTimer _ hobj | cancelTimer _ hobj | switch _ hobj => exact hset hobj rfl
  | fire hobj | timerSwitch _ hobj => exact hset hobj rfl
  | @build x g rest hs =>
    have hlt := lt_of_factoryOf hf
    exact (factoryOf_make d g o).trans (by rw [if_neg (by omega), hf])

theorem origin_init : Origin P P.init where
  stack := trivial
  timer := fun o g ho => absurd ho (by simp [Device.timerOf, init])
  thread := fun t ht g hg => by
    obtain rfl := List.mem_singleton.mp ht
    cases hg

/-- Threads that no timer has started change nothing. -/
theorem Origin.threads (h : Origin P d) {ts : List (DeviceThread F)}
    (hts : ∀ t ∈ ts, t.timedFor = none) : Origin P { d with threads := d.threads ++ ts } :=
  { h with
    thread := fun t ht g hg => by
      rcases List.mem_append.mp ht with ht | ht
      · exact h.thread t ht g hg
      · rw [hts t ht] at hg
        cases hg }

theorem origin_handleReserve (h : Origin P d) (kind : String) :
    Origin P (P.handleReserve d kind) := by
  rw [handleReserve]
  split
  · exact h
  · exact h.threads (by simp [DeviceThread.timedFor])

theorem origin_handleUnreserve (h : Origin P d) : Origin P (P.handleUnreserve d) :=
  h.threads (by simp [DeviceThread.timedFor])

end StateTable

end UsbipIce
