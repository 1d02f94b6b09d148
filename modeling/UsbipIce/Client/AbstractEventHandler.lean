import UsbipIce.Lib.DepthFirst
import UsbipIce.Lib.Linearization
import UsbipIce.Lib.Table

/-!
# Finding the method for an event

`AbstractEventHandler.handleEvent` looks for a method that was registered for an
event with `@register`, in the class of the handler and in its ancestors. It does
not go along the method resolution order: it keeps a worklist of its own, puts
the bases of a class that has not registered the event in the place of that
class, and passes over a class that has registered nothing at all, together with
its bases.

So the search always ends (`UsbipIce.Hierarchy.handles_iff`), but it finds what
inheritance would find only where the leftmost chain of bases, through classes
that register something, leads to the class that comes first in the method
resolution order. A class that registers nothing receives nothing
(`UsbipIce.Hierarchy.search_of_unregistered`), as the handler of the example
`read_default` does (`UsbipIce.Hierarchy.readOnExport_misses`), and with a common
base the worklist reaches the base before the class to the right
(`UsbipIce.Hierarchy.diamond_takes_top`).
-/

namespace UsbipIce

open Lib

/-! ### Classes and their instances -/

/-- A `JsonMethodCall`. -/
structure JsonMethodCall where
  name : String
  parms : List String
  deriving DecidableEq, Repr

/-- **Event handler classes** `K` with the methods `F` they define. -/
structure Hierarchy (K F : Type*) [DecidableEq K] where
  /-- `__bases__`. -/
  bases : K → List K
  /-- `__mro__`. -/
  mro : K → List K
  /-- The attributes that a class itself defines. -/
  dict : K → String → Option F
  /-- `REGISTERED_METHODS`; a class without registrations has no entry there. -/
  registeredMethods : K → Table (String × JsonMethodCall) Prod.fst
  /-- A class is made after its bases. -/
  wellFounded : WellFounded fun b c => b ∈ bases c
  /-- The method resolution order is the C3 linearization. -/
  linear : ∀ c, ∃ l, mro c = c :: l ∧ Merges ((bases c).map mro ++ [bases c]) l
  /-- `__set_name__` sets the attribute that it registers. -/
  registers : ∀ c, ∀ m ∈ registeredMethods c, (dict c m.2.name).isSome = true

/-- An event handler, with the attributes of the object itself. -/
structure EventHandler (K F : Type*) where
  type : K
  vars : String → Option F

/-- The contents of an event; a value may be `None`. -/
abbrev EventContents (V : Type*) := Table (String × Option V) Prod.fst

/-- What `handleEvent` does: it returns `False`, or what a call returns. -/
inductive EventAnswer (F V : Type*) where
  | false
  | calls (fn : F) (args : List V)
  deriving DecidableEq, Repr

/-- The arguments of a call, where all of them are there. -/
def JsonMethodCall.args {V : Type*} (attr : JsonMethodCall) (data : EventContents V) :
    Option (List V) :=
  let args := attr.parms.map fun p => (data.find? p).bind Prod.snd
  if args.any Option.isNone then none else some args.reduceOption

namespace Hierarchy

variable {K F : Type*} [DecidableEq K] (H : Hierarchy K F)

/-- `getattr`. -/
def getattr (obj : EventHandler K F) (name : String) : Option F :=
  (obj.vars name).or ((H.mro obj.type).findSome? fun c => H.dict c name)

/-- `JsonMethodCall.__call__`. -/
def call {V : Type*} (attr : JsonMethodCall) (obj : EventHandler K F) (data : EventContents V) :
    EventAnswer F V :=
  match attr.args data, H.getattr obj attr.name with
  | none, _ | some _, none => .false
  | some args, some fn => .calls fn args

/-! ### The search -/

/-- The loop of `handleEvent` over `search`, for some rounds: the class it stops
at with the method registered there, or that `search` is empty; `none` where it
is not over. -/
def search (event : String) : ℕ → List K → Option (Option (K × JsonMethodCall))
  | 0, _ => none
  | _ + 1, [] => some none
  | n + 1, type :: rest =>
    if (H.registeredMethods type).rows.isEmpty then search event n rest
    else
      match (H.registeredMethods type).find? event with
      | some (_, attr) => some (some (type, attr))
      | none => search event n ((H.bases type).reverse.foldl (fun search cls => cls :: search) rest)

/-- `AbstractEventHandler.handleEvent`, for some rounds of its loop. -/
def handleEvent {V : Type*} (n : ℕ) (obj : EventHandler K F) (event : String)
    (contents : EventContents V) : Option (EventAnswer F V) :=
  (H.search event n [obj.type]).map fun
    | none => .false
    | some (_, attr) => H.call attr obj contents

/-! ### What inheritance asks for -/

/-- The registration of a class for an event. -/
def registration (event : String) (c : K) : Option (K × JsonMethodCall) :=
  ((H.registeredMethods c).find? event).map fun m => (c, m.2)

/-- The registration of the first class in the method resolution order that has
one. -/
def firstRegistration (c : K) (event : String) : Option (K × JsonMethodCall) :=
  (H.mro c).findSome? (H.registration event)

/-- **Handling an event as inheritance asks for**: the loop ends, with the
registration of the first class in the method resolution order that has one; and
the attribute of the object under the registered name is called, if the arguments
are there. -/
def Handles (V : Type*) (obj : EventHandler K F) (event : String) : Prop :=
  ∃ n, ∀ m, n ≤ m →
    H.search event m [obj.type] = some (H.firstRegistration obj.type event) ∧
      ∀ contents : EventContents V,
        match H.firstRegistration obj.type event with
        | none => H.handleEvent m obj event contents = some .false
        | some (_, attr) => ∃ fn, H.getattr obj attr.name = some fn ∧
            H.handleEvent m obj event contents =
              some ((attr.args contents).elim .false fun args => .calls fn args)

/-- The bases of a class that registers something. -/
def registeringBases (c : K) : List K :=
  if (H.registeredMethods c).rows.isEmpty then [] else H.bases c

/-- **The leftmost chain leads to the first class**: where a class of the method
resolution order has registered the event, some chain of bases, through classes
that register something, leads to the first such class, and none that leads to a
class with a registration for the event is to the left of it. -/
def Direct (c : K) (event : String) : Prop :=
  ∀ k attr, H.firstRegistration c event = some (k, attr) →
    ∃ p, walk H.registeringBases c p = some k ∧ ∀ q k', walk H.registeringBases c q = some k' →
      (H.registration event k').isSome = true → p ≤ q

variable {H} {c d k : K} {event : String} {attr : JsonMethodCall}

/-! ### Ancestors -/

theorem mem_mro_self (c : K) : c ∈ H.mro c := by
  obtain ⟨l, hl, -⟩ := H.linear c
  rw [hl]
  exact List.mem_cons_self

/-- The order of a class has the orders of its bases in it. -/
theorem mem_mro_of_bases {b : K} (hb : b ∈ H.bases c) (h : d ∈ H.mro b) : d ∈ H.mro c := by
  obtain ⟨l, hl, hmerges⟩ := H.linear c
  rw [hl]
  refine List.mem_cons_of_mem _ (hmerges.mem_iff.mpr ⟨H.mro b, ?_, h⟩)
  exact List.mem_append_left _ (List.mem_map_of_mem hb)

theorem mem_bases_of_registeringBases {b : K} (h : b ∈ H.registeringBases c) : b ∈ H.bases c := by
  rw [registeringBases] at h
  split at h
  · cases h
  · exact h

/-- A chain of bases leads to a class of the method resolution order. -/
theorem mem_mro_of_walk {p : List ℕ} (h : walk H.registeringBases c p = some d) : d ∈ H.mro c := by
  induction p generalizing c with
  | nil =>
    obtain rfl := Option.some.inj h
    exact mem_mro_self _
  | cons i p ih =>
    obtain ⟨b, hb, hwalk⟩ := Option.bind_eq_some_iff.mp h
    exact mem_mro_of_bases (mem_bases_of_registeringBases (List.mem_of_getElem? hb)) (ih hwalk)

/-- An attribute that a class of the method resolution order defines is found. -/
theorem getattr_isSome {obj : EventHandler K F} {name : String} (hc : c ∈ H.mro obj.type)
    (h : (H.dict c name).isSome = true) : ∃ fn, H.getattr obj name = some fn := by
  refine Option.isSome_iff_exists.mp ?_
  rw [getattr, Option.isSome_or, List.findSome?_isSome_iff.mpr ⟨c, hc, h⟩, Bool.or_true]

theorem registration_eq_some :
    H.registration event c = some (k, attr) ↔
      k = c ∧ ∃ name, (H.registeredMethods c).find? event = some (name, attr) := by
  rw [registration, Option.map_eq_some_iff]
  constructor
  · rintro ⟨⟨name, attr'⟩, hm, heq⟩
    obtain ⟨rfl, rfl⟩ := Prod.mk.inj heq
    exact ⟨rfl, name, hm⟩
  · rintro ⟨rfl, name, hm⟩
    exact ⟨(name, attr), hm, rfl⟩

/-! ### The search is depth first -/

/-- **The loop is a depth-first search** over the bases of classes that register
something. -/
theorem search_eq (n : ℕ) (l : List K) :
    H.search event n l =
      (depthFirst H.registeringBases (fun c => (H.registration event c).isSome) n l).map fun r =>
        r.bind (H.registration event) := by
  induction n generalizing l with
  | zero => rfl
  | succ n ih =>
    cases l with
    | nil => rfl
    | cons c rest =>
      rw [search, depthFirst]
      cases hfind : (H.registeredMethods c).find? event with
      | none =>
        have hnone : H.registration event c = none := by rw [registration, hfind, Option.map_none]
        rw [hnone, Option.isSome_none, if_neg Bool.false_ne_true, registeringBases]
        split
        · rw [List.nil_append, ih]
        · dsimp only
          rw [List.foldl_flip_cons_eq_append', List.reverse_reverse, ih]
      | some m =>
        have hsome :
            H.registration event c = some (c, m.2) := by rw [registration, hfind, Option.map_some]
        have hrows : (H.registeredMethods c).rows.isEmpty = false := by
          rw [List.isEmpty_eq_false_iff]
          exact List.ne_nil_of_mem (Table.find?_eq_some.mp hfind).1
        rw [hsome, Option.isSome_some, if_pos rfl, hrows, if_neg Bool.false_ne_true]
        exact congrArg some hsome.symm

/-- The registration of the first class is its own. -/
theorem registration_of_first (h : H.firstRegistration c event = some (k, attr)) :
    k ∈ H.mro c ∧ H.registration event k = some (k, attr) := by
  obtain ⟨d, hd, hreg⟩ := List.exists_of_findSome?_eq_some h
  obtain ⟨rfl, -⟩ := registration_eq_some.mp hreg
  exact ⟨hd, hreg⟩

/-- **Where the search comes to the first class.** It does so exactly where the
leftmost chain leads there. -/
theorem bind_registration_iff {r : Option K}
    (hr : Leftmost H.registeringBases (fun c => (H.registration event c).isSome) c r) :
    r.bind (H.registration event) = H.firstRegistration c event ↔ H.Direct c event := by
  constructor
  · intro h k attr hfirst
    rw [hfirst] at h
    obtain ⟨g, rfl, hreg⟩ := Option.bind_eq_some_iff.mp h
    obtain ⟨rfl, -⟩ := registration_eq_some.mp hreg
    exact hr.2
  · intro hdirect
    cases hfirst : H.firstRegistration c event with
    | none =>
      cases r with
      | none => rfl
      | some g =>
        -- a class that the search finds is one of the method resolution order
        obtain ⟨hgoal, p, hp, -⟩ := hr
        have hnone := List.findSome?_eq_none_iff.mp hfirst g (mem_mro_of_walk hp)
        dsimp only at hgoal
        rw [hnone] at hgoal
        cases hgoal
    | some x =>
      obtain ⟨k, attr⟩ := x
      obtain ⟨-, hreg⟩ := registration_of_first hfirst
      obtain ⟨p, hp, hleast⟩ := hdirect k attr hfirst
      have hgoal : (H.registration event k).isSome = true := by rw [hreg, Option.isSome_some]
      have hsame : r = some k := hr.unique ⟨hgoal, p, hp, hleast⟩
      rw [hsame, Option.bind_some, hreg]

/-- **When an event is handled as inheritance asks for.** For every hierarchy of
classes, with single or multiple inheritance and any registrations, every object
and every event: the loop of `handleEvent` ends; and it ends with the
registration of the first class of the method resolution order that has one, and
the object's own attribute is called, exactly if the leftmost chain of bases
leads to that class. -/
theorem handles_iff (V : Type*) (H : Hierarchy K F) (obj : EventHandler K F) (event : String) :
    (∃ n found, ∀ m, n ≤ m → H.search event m [obj.type] = some found) ∧
      (H.Handles V obj event ↔ H.Direct obj.type event) := by
  have hwf : WellFounded fun b c => b ∈ H.registeringBases c :=
    Subrelation.wf mem_bases_of_registeringBases H.wellFounded
  obtain ⟨n, r, hn, hr⟩ :=
    exists_depthFirst (fun c => (H.registration event c).isSome) hwf obj.type
  have hsearch : ∀ m, n ≤ m → H.search event m [obj.type] = some (r.bind (H.registration event)) :=
    fun m hm => by rw [search_eq, hn m hm, Option.map_some]
  refine ⟨⟨n, _, hsearch⟩, ?_⟩
  rw [← bind_registration_iff hr]
  constructor
  · rintro ⟨n', h⟩
    have hboth := (h (max n n') (le_max_right _ _)).1
    rw [hsearch _ (le_max_left _ _)] at hboth
    exact Option.some.inj hboth
  · intro hfound
    refine ⟨n, fun m hm => ⟨hfound ▸ hsearch m hm, fun contents => ?_⟩⟩
    have hloop := hsearch m hm
    rw [hfound] at hloop
    cases hfirst : H.firstRegistration obj.type event with
    | none =>
      rw [hfirst] at hloop
      dsimp only
      rw [handleEvent, hloop]
      rfl
    | some x =>
      obtain ⟨k, attr⟩ := x
      rw [hfirst] at hloop
      obtain ⟨hmem, hreg⟩ := registration_of_first hfirst
      obtain ⟨-, name, hfind⟩ := registration_eq_some.mp hreg
      obtain ⟨fn, hfn⟩ := getattr_isSome hmem (H.registers k _ (Table.find?_eq_some.mp hfind).1)
      refine ⟨fn, hfn, ?_⟩
      rw [handleEvent, hloop, Option.map_some]
      dsimp only
      rw [call, hfn]
      cases attr.args contents with
      | none => rfl
      | some args => rfl

/-- **A class that registers nothing receives nothing**, whatever its ancestors
have registered. -/
theorem search_of_unregistered (H : Hierarchy K F) (event : String)
    (h : (H.registeredMethods c).rows.isEmpty = true) {n : ℕ} (hn : 2 ≤ n) :
    H.search event n [c] = some none := by
  obtain ⟨n, rfl⟩ := Nat.exists_eq_add_of_le' hn
  rw [search, if_pos h]
  rfl

/-! ### Single inheritance -/

/-- The order of a class with one base. -/
theorem mro_of_base {b : K} (hb : H.bases c = [b]) : H.mro c = c :: H.mro b := by
  obtain ⟨l, hl, hmerges⟩ := H.linear c
  obtain ⟨t, ht, -⟩ := H.linear b
  rw [hb, List.map_singleton, List.singleton_append, ht] at hmerges
  rw [hl, hmerges.eq_of_base, ht]

theorem mro_of_nil (hb : H.bases c = []) : H.mro c = [c] := by
  obtain ⟨l, hl, hmerges⟩ := H.linear c
  rw [hb] at hmerges
  cases hmerges with
  | nil => exact hl
  | cons hc => cases hc

/-- Where a class with one base has not registered the event, the first
registration is that of the base. -/
theorem firstRegistration_of_base {b : K} (hb : H.bases c = [b])
    (hc : H.registration event c = none) :
    H.firstRegistration c event = H.firstRegistration b event := by
  rw [firstRegistration, mro_of_base hb, List.findSome?_cons, hc]
  rfl

theorem firstRegistration_of_nil (hb : H.bases c = []) (hc : H.registration event c = none) :
    H.firstRegistration c event = none := by
  rw [firstRegistration, mro_of_nil hb, List.findSome?_cons, hc]
  rfl

/-- A class that has registered the event is the first, and the search stops
there. -/
theorem direct_of_registration (hc : (H.registration event c).isSome = true) :
    H.Direct c event := by
  intro k attr hk
  obtain ⟨x, hx⟩ := Option.isSome_iff_exists.mp hc
  obtain ⟨l, hl, -⟩ := H.linear c
  rw [firstRegistration, hl, List.findSome?_cons, hx] at hk
  obtain rfl := Option.some.inj hk
  obtain ⟨rfl, -⟩ := registration_eq_some.mp hx
  exact ⟨[], rfl, fun q _ _ _ => nil_le_positions q⟩

/-- A chain from a class with one base goes on from the base, where the class
registers something. -/
theorem walk_of_base {b : K} (hb : H.bases c = [b]) {i : ℕ} {p : List ℕ} :
    walk H.registeringBases c (i :: p) = some k ↔
      i = 0 ∧ (H.registeredMethods c).rows.isEmpty = false ∧
        walk H.registeringBases b p = some k := by
  rw [walk, registeringBases]
  split
  · rename_i hempty
    simp [hempty]
  · rename_i hempty
    rw [hb]
    rcases i with _ | i
    · simp [hempty]
    · simp

/-- The step from a class without the event to its one base. -/
theorem direct_of_base {b : K} (hb : H.bases c = [b]) (hc : H.registration event c = none) :
    H.Direct c event ↔ H.Direct b event ∧ ((H.firstRegistration b event).isSome = true →
      (H.registeredMethods c).rows.isEmpty = false) := by
  -- a chain to a class with a registration does not end where it begins
  have hnil : ∀ k', walk H.registeringBases c [] = some k' →
      (H.registration event k').isSome = true → False := by
    rintro k' hk' hreg
    rw [← Option.some.inj hk', hc] at hreg
    cases hreg
  have hown : ∀ k attr, H.firstRegistration b event = some (k, attr) →
      (H.registration event k).isSome = true := fun k attr h => by
    rw [(registration_of_first h).2, Option.isSome_some]
  rw [Direct, firstRegistration_of_base hb hc]
  constructor
  · intro h
    have hpath : ∀ k attr, H.firstRegistration b event = some (k, attr) →
        ∃ p, (H.registeredMethods c).rows.isEmpty = false ∧
          walk H.registeringBases b p = some k ∧ ∀ q k', walk H.registeringBases b q = some k' →
            (H.registration event k').isSome = true → p ≤ q := by
      intro k attr hk
      obtain ⟨_ | ⟨i, p⟩, hp, hleast⟩ := h k attr hk
      · exact (hnil k hp (hown k attr hk)).elim
      · obtain ⟨rfl, hrows, hwalk⟩ := (walk_of_base hb).mp hp
        refine ⟨p, hrows, hwalk, fun q k' hq hreg => ?_⟩
        have hle := hleast (0 :: q) k' ((walk_of_base hb).mpr ⟨rfl, hrows, hq⟩) hreg
        exact ((cons_le_cons_positions.mp hle).resolve_left (Nat.lt_irrefl 0)).2
    refine ⟨fun k attr hk => ?_, fun hsome => ?_⟩
    · obtain ⟨p, -, hp⟩ := hpath k attr hk
      exact ⟨p, hp⟩
    · obtain ⟨⟨k, attr⟩, hk⟩ := Option.isSome_iff_exists.mp hsome
      obtain ⟨p, hrows, -⟩ := hpath k attr hk
      exact hrows
  · rintro ⟨hdirect, hrows⟩ k attr hk
    have hempty := hrows (by rw [hk, Option.isSome_some])
    obtain ⟨p, hp, hleast⟩ := hdirect k attr hk
    refine ⟨0 :: p, (walk_of_base hb).mpr ⟨rfl, hempty, hp⟩, ?_⟩
    rintro (_ | ⟨j, q⟩) k' hq hreg
    · exact (hnil k' hq hreg).elim
    · obtain ⟨rfl, -, hwalk⟩ := (walk_of_base hb).mp hq
      exact cons_le_cons_positions.mpr (Or.inr ⟨rfl, hleast q k' hwalk hreg⟩)

/-- **With single inheritance** the search comes to the first class exactly where
every class before it registers something. -/
theorem direct_iff_of_single (hsingle : ∀ c, (H.bases c).length ≤ 1) (c : K) :
    H.Direct c event ↔ ((H.firstRegistration c event).isSome = true →
      ∀ d ∈ (H.mro c).takeWhile fun d => (H.registration event d).isNone,
        (H.registeredMethods d).rows.isEmpty = false) := by
  induction c using H.wellFounded.induction with
  | _ c ih =>
    cases hc : H.registration event c with
    | some x =>
      obtain ⟨l, hl, -⟩ := H.linear c
      refine iff_of_true (direct_of_registration (by rw [hc, Option.isSome_some])) fun _ d hd => ?_
      rw [hl, List.takeWhile_cons_of_neg (by simp [hc])] at hd
      cases hd
    | none =>
      have hbases : H.bases c = [] ∨ ∃ b, H.bases c = [b] := by
        have hlen := hsingle c
        cases hb : H.bases c with
        | nil => exact Or.inl rfl
        | cons b l =>
          rw [hb, List.length_cons] at hlen
          have hnil : l = [] := List.eq_nil_of_length_eq_zero (by omega)
          exact Or.inr ⟨b, by rw [hnil]⟩
      obtain hnil | ⟨b, hb⟩ := hbases
      · have hnone : H.firstRegistration c event = none := firstRegistration_of_nil hnil hc
        refine iff_of_true (fun k attr hk => ?_) fun hsome => ?_
        · rw [hnone] at hk
          cases hk
        · rw [hnone] at hsome
          cases hsome
      · rw [direct_of_base hb hc, ih b (by rw [hb]; exact List.mem_singleton_self b),
          firstRegistration_of_base hb hc, mro_of_base hb,
          List.takeWhile_cons_of_pos (by simp [hc])]
        constructor
        · rintro ⟨hrest, hrows⟩ hsome d hd
          obtain rfl | hd := List.mem_cons.mp hd
          · exact hrows hsome
          · exact hrest hsome d hd
        · intro h
          exact ⟨fun hsome d hd => h hsome d (List.mem_cons_of_mem _ hd),
            fun hsome => h hsome c List.mem_cons_self⟩

/-! ### Two hierarchies -/

/-- Where every base has a smaller rank, no chain of bases goes on forever. -/
theorem wellFounded_of_rank {K : Type*} {bases : K → List K} (rank : K → ℕ)
    (h : ∀ c, ∀ b ∈ bases c, rank b < rank c) : WellFounded fun b c => b ∈ bases c :=
  Subrelation.wf (fun {b c} hb => h c b hb) (measure rank).wf

/-- The classes of the example `read_default`. -/
inductive ReadDefault where
  | object
  | abstractEventHandler
  | baseUsbipEventHandler
  | readOnExport
  deriving DecidableEq

/-- `ReadOnExport` overrides `export`, and registers nothing. -/
def readDefault : Hierarchy ReadDefault String where
  bases
    | .object => []
    | .abstractEventHandler => [.object]
    | .baseUsbipEventHandler => [.abstractEventHandler]
    | .readOnExport => [.baseUsbipEventHandler]
  mro
    | .object => [.object]
    | .abstractEventHandler => [.abstractEventHandler, .object]
    | .baseUsbipEventHandler => [.baseUsbipEventHandler, .abstractEventHandler, .object]
    | .readOnExport => [.readOnExport, .baseUsbipEventHandler, .abstractEventHandler, .object]
  dict
    | .object, _ | .abstractEventHandler, _ => none
    | .baseUsbipEventHandler, name =>
      if name = "export" then some "BaseUsbipEventHandler.export"
      else if name = "disconnect" then some "BaseUsbipEventHandler.disconnect" else none
    | .readOnExport, name => if name = "export" then some "ReadOnExport.export" else none
  registeredMethods
    | .baseUsbipEventHandler =>
      ⟨[("export", ⟨"export", ["serial", "busid", "server_ip", "usbip_port"]⟩),
        ("disconnect", ⟨"disconnect", ["serial"]⟩)], by decide⟩
    | .object | .abstractEventHandler | .readOnExport => ∅
  wellFounded := wellFounded_of_rank ReadDefault.ctorIdx (by rintro (_ | _ | _ | _) <;> decide)
  linear := by
    rintro (_ | _ | _ | _)
    · exact ⟨_, rfl, .nil (by decide)⟩
    · exact ⟨_, rfl, .cons rfl (.nil (by decide))⟩
    · exact ⟨_, rfl, .cons rfl (.cons rfl (.nil (by decide)))⟩
    · exact ⟨_, rfl, .cons rfl (.cons rfl (.cons rfl (.nil (by decide))))⟩
  registers := by rintro (_ | _ | _ | _) <;> decide

/-- A `ReadOnExport`. -/
def readOnExport : EventHandler ReadDefault String := ⟨.readOnExport, fun _ => none⟩

/-- **An event that is dropped.** `BaseUsbipEventHandler` has registered
`export`, and `ReadOnExport` overrides its method; the search passes over
`ReadOnExport` together with its bases, and `handleEvent` answers `False`. -/
theorem readOnExport_misses :
    readDefault.firstRegistration .readOnExport "export" =
        some (.baseUsbipEventHandler, ⟨"export", ["serial", "busid", "server_ip", "usbip_port"]⟩) ∧
      readDefault.getattr readOnExport "export" = some "ReadOnExport.export" ∧
      (∀ n, 2 ≤ n → ∀ contents : EventContents String,
        readDefault.handleEvent n readOnExport "export" contents = some .false) ∧
      ¬readDefault.Handles String readOnExport "export" := by
  have hsearch : ∀ n, 2 ≤ n → readDefault.search "export" n [.readOnExport] = some none :=
    fun n hn => search_of_unregistered readDefault "export" rfl hn
  refine ⟨by decide, by decide, fun n hn contents => ?_, ?_⟩
  · rw [handleEvent, readOnExport, hsearch n hn]
    rfl
  · rintro ⟨n, h⟩
    have hfirst := (h (max n 2) (le_max_left _ _)).1
    rw [readOnExport, hsearch _ (le_max_right _ _)] at hfirst
    exact absurd hfirst (by decide)

/-- Classes with a common base. -/
inductive Diamond where
  | object
  | top
  | left
  | right
  | bottom
  deriving DecidableEq

/-- `top` and `right` register `failure`, the other two something else. -/
def diamond : Hierarchy Diamond String where
  bases
    | .object => []
    | .top => [.object]
    | .left | .right => [.top]
    | .bottom => [.left, .right]
  mro
    | .object => [.object]
    | .top => [.top, .object]
    | .left => [.left, .top, .object]
    | .right => [.right, .top, .object]
    | .bottom => [.bottom, .left, .right, .top, .object]
  dict
    | .object, _ => none
    | .top, name => if name = "onFailure" then some "Top.onFailure" else none
    | .left, name => if name = "onExport" then some "Left.onExport" else none
    | .right, name => if name = "onDeviceFailure" then some "Right.onDeviceFailure" else none
    | .bottom, name => if name = "onDisconnect" then some "Bottom.onDisconnect" else none
  registeredMethods
    | .object => ∅
    | .top => ⟨[("failure", ⟨"onFailure", ["serial"]⟩)], by decide⟩
    | .left => ⟨[("export", ⟨"onExport", ["serial"]⟩)], by decide⟩
    | .right => ⟨[("failure", ⟨"onDeviceFailure", ["serial"]⟩)], by decide⟩
    | .bottom => ⟨[("disconnect", ⟨"onDisconnect", ["serial"]⟩)], by decide⟩
  wellFounded := wellFounded_of_rank Diamond.ctorIdx (by rintro (_ | _ | _ | _ | _) <;> decide)
  linear := by
    rintro (_ | _ | _ | _ | _)
    · exact ⟨_, rfl, .nil (by decide)⟩
    · exact ⟨_, rfl, .cons rfl (.nil (by decide))⟩
    · exact ⟨_, rfl, .cons rfl (.cons rfl (.nil (by decide)))⟩
    · exact ⟨_, rfl, .cons rfl (.cons rfl (.nil (by decide)))⟩
    · exact ⟨_, rfl, .cons rfl (.cons rfl (.cons rfl (.cons rfl (.nil (by decide)))))⟩
  registers := by rintro (_ | _ | _ | _ | _) <;> decide

/-- **The common base comes before the class to the right.** In the method
resolution order `right` comes first; the search goes on from `left` to `top`
before it looks at `right`. -/
theorem diamond_takes_top :
    diamond.firstRegistration .bottom "failure" = some (.right, ⟨"onDeviceFailure", ["serial"]⟩) ∧
      ∀ n, 3 ≤ n → diamond.search "failure" n [.bottom] =
        some (some (.top, ⟨"onFailure", ["serial"]⟩)) := by
  refine ⟨by decide, fun n hn => ?_⟩
  obtain ⟨n, rfl⟩ := Nat.exists_eq_add_of_le' hn
  rfl

end Hierarchy

end UsbipIce
