import Mathlib.Data.List.Forall2
import UsbipIce.Utils.Json

/-!
# Checking arguments against a signature

`typecheck` is what stands between JSON values from outside and the functions
that are called with them. It goes over the parameters of a signature and, for
each, by the form of its annotation: nothing, a class, a generic alias such as
`list[str]`, or something else.

Classes are of any type, and what an instance of one is, is a parameter
(`isinstance`). The forms that the documentation admits are a type of their own
(`UsbipIce.Utils.Documented`), so that a signature of them is a list; what it asks
of the arguments is `UsbipIce.Utils.Documented.Conforms`. The function
checks this except where a parameter is annotated with `dict[K, V]`: it then
looks at no argument (`UsbipIce.Utils.typecheck_iff`).
-/

namespace UsbipIce.Utils

variable {C ν : Type*}

/-! ### The function -/

/-- What a generic alias has between its brackets: a class, or another alias,
which `isinstance` does not take. -/
inductive TypeArg (C : Type*) where
  | cls (c : C)
  | generic
  deriving DecidableEq

/-- What a generic alias is an alias of. -/
inductive AliasOrigin where
  | list
  | dict
  | other
  deriving DecidableEq

/-- The annotation of a parameter: `inspect._empty`, a class, a
`types.GenericAlias`, or anything else. -/
inductive AnnotationForm (C : Type*) where
  | empty
  | cls (c : C)
  | generic (origin : AliasOrigin) (args : List (TypeArg C))
  | other
  deriving DecidableEq

/-- What a round of a loop does. -/
inductive Round where
  | goesOn
  | returns (b : Bool)
  | raises
  deriving DecidableEq

/-- `isinstance` with what stands in the brackets; it raises for an alias. -/
def TypeArg.isinstance (isinstance : Json ν → C → Bool) (value : Json ν) : TypeArg C → Option Bool
  | .cls c => some (isinstance value c)
  | .generic => none

/-- The loop over the elements of a list. -/
def checkValues (isinstance : Json ν → C → Bool) (type : TypeArg C) : List (Json ν) → Round
  | [] => .goesOn
  | value :: values =>
    match type.isinstance isinstance value with
    | none => .raises
    | some false => .returns false
    | some true => checkValues isinstance type values

/-- A round of the loop over arguments and parameters. -/
def checkArg (isinstance : Json ν → C → Bool) (arg : Json ν) : AnnotationForm C → Round
  | .empty => .goesOn
  | .cls c => if isinstance arg c then .goesOn else .returns false
  | .other => .returns false
  | .generic .dict _ => .goesOn
  | .generic .other _ => .returns false
  | .generic .list args =>
    match arg, args with
    | .array values, [type] => checkValues isinstance type values
    | _, _ => .returns false

/-- The loop over arguments and parameters. -/
def checkArgs (isinstance : Json ν → C → Bool) : List (Json ν × AnnotationForm C) → Option Bool
  | [] => some true
  | (arg, annotation) :: rest =>
    match checkArg isinstance arg annotation with
    | .goesOn => checkArgs isinstance rest
    | .returns b => some b
    | .raises => none

/-- **`typecheck`**: its result, or nothing where it raises. -/
def typecheck (isinstance : Json ν → C → Bool) (params : List (AnnotationForm C))
    (args : List (Json ν)) : Option Bool :=
  if params.length ≠ args.length then some false else checkArgs isinstance (args.zip params)

/-! ### The forms of the documentation -/

/-- The annotations of the documentation: none, a class, `list[C]`,
`dict[K, V]`. -/
inductive Documented (C : Type*) where
  | unannotated
  | ofClass (c : C)
  | listOf (c : C)
  | dictOf (k v : C)

namespace Documented

/-- The annotation itself. -/
def annotationOf : Documented C → AnnotationForm C
  | unannotated => .empty
  | ofClass c => .cls c
  | listOf c => .generic .list [.cls c]
  | dictOf k v => .generic .dict [.cls k, .cls v]

/-- What an annotation asks of an argument, as documented. -/
def Conforms (isinstance : Json ν → C → Bool) : Documented C → Json ν → Prop
  | unannotated, _ => True
  | ofClass c, arg => isinstance arg c = true
  | listOf c, .array values => ∀ value ∈ values, isinstance value c = true
  | listOf _, _ => False
  | dictOf _ _, .object _ => True
  | dictOf _ _, _ => False

instance (isinstance : Json ν → C → Bool) (d : Documented C) (arg : Json ν) :
    Decidable (d.Conforms isinstance arg) :=
  match d, arg with
  | unannotated, _ => isTrue trivial
  | ofClass c, arg => inferInstanceAs (Decidable (isinstance arg c = true))
  | listOf c, .array values =>
    inferInstanceAs (Decidable (∀ value ∈ values, isinstance value c = true))
  | listOf _, .null | listOf _, .bool _ | listOf _, .number _ | listOf _, .str _
  | listOf _, .object _ => isFalse id
  | dictOf _ _, .object _ => isTrue trivial
  | dictOf _ _, .null | dictOf _ _, .bool _ | dictOf _ _, .number _ | dictOf _ _, .str _
  | dictOf _ _, .array _ => isFalse id

/-- The form `dict[K, V]`. -/
def IsDict : Documented C → Prop
  | dictOf _ _ => True
  | unannotated | ofClass _ | listOf _ => False

instance (d : Documented C) : Decidable d.IsDict :=
  match d with
  | dictOf _ _ => isTrue trivial
  | unannotated | ofClass _ | listOf _ => isFalse id

end Documented

/-- **The documentation holds** for a signature and some arguments: `typecheck`
returns, and returns `True` exactly for as many arguments as there are
parameters, each of which conforms. -/
def Checks (isinstance : Json ν → C → Bool) (params : List (Documented C))
    (args : List (Json ν)) : Prop :=
  ∃ b, typecheck isinstance (params.map Documented.annotationOf) args = some b ∧
    (b = true ↔
      params.length = args.length ∧ ∀ q ∈ args.zip params, q.2.Conforms isinstance q.1)

/-! ### What the function checks -/

section Checked

variable {isinstance : Json ν → C → Bool}

@[simp] theorem checkValues_cls (c : C) (values : List (Json ν)) :
    checkValues isinstance (.cls c) values =
      if ∀ value ∈ values, isinstance value c = true then .goesOn else .returns false := by
  induction values with
  | nil => rfl
  | cons value values ih =>
    rw [checkValues, TypeArg.isinstance]
    cases hvalue : isinstance value c with
    | true => simp [hvalue, ih]
    | false => simp [hvalue]

theorem Documented.conforms_dictOf {k v : C} {arg : Json ν} :
    (dictOf k v).Conforms isinstance arg ↔ ∃ fields, arg = .object fields := by
  cases arg <;> simp [Conforms]

/-- **One argument**: for `dict[K, V]` it is not looked at. -/
@[simp] theorem checkArg_annotationOf (d : Documented C) (arg : Json ν) :
    checkArg isinstance arg d.annotationOf =
      if d.IsDict ∨ d.Conforms isinstance arg then .goesOn else .returns false := by
  cases d with
  | unannotated => simp [Documented.annotationOf, checkArg, Documented.Conforms]
  | ofClass c => simp [Documented.annotationOf, checkArg, Documented.Conforms, Documented.IsDict]
  | dictOf k v => simp [Documented.annotationOf, checkArg, Documented.IsDict]
  | listOf c =>
    cases arg with
    | array values =>
      rw [Documented.annotationOf, checkArg, checkValues_cls]
      simp [Documented.Conforms, Documented.IsDict]
    | null | bool b | number n | str s | object fields =>
      simp [Documented.annotationOf, checkArg, Documented.Conforms, Documented.IsDict]

/-- **All arguments.** -/
@[simp] theorem checkArgs_annotationOf (params : List (Documented C)) (args : List (Json ν)) :
    checkArgs isinstance (args.zip (params.map Documented.annotationOf)) =
      some (decide (∀ q ∈ args.zip params, q.2.IsDict ∨ q.2.Conforms isinstance q.1)) := by
  induction params generalizing args with
  | nil => simp [checkArgs]
  | cons d params ih =>
    cases args with
    | nil => simp [checkArgs]
    | cons arg args =>
      rw [List.map_cons, List.zip_cons_cons, List.zip_cons_cons, checkArgs, checkArg_annotationOf]
      by_cases hd : d.IsDict ∨ d.Conforms isinstance arg
      · simp [hd, ih]
      · simp [hd]

/-- **It never raises**, and what it returns. -/
@[simp] theorem typecheck_annotationOf (params : List (Documented C)) (args : List (Json ν)) :
    typecheck isinstance (params.map Documented.annotationOf) args =
      some (decide (params.length = args.length ∧
        ∀ q ∈ args.zip params, q.2.IsDict ∨ q.2.Conforms isinstance q.1)) := by
  rw [typecheck, List.length_map]
  by_cases hlen : params.length = args.length
  · simp [hlen, checkArgs_annotationOf]
  · simp [hlen]

end Checked

/-- **The documentation holds** where the arguments for `dict[K, V]` are
dictionaries, and where something else is wrong anyway. -/
theorem typecheck_iff (isinstance : Json ν → C → Bool) (params : List (Documented C))
    (args : List (Json ν)) :
    Checks isinstance params args ↔
      params.length ≠ args.length ∨
        (∃ q ∈ args.zip params, ¬q.2.IsDict ∧ ¬q.2.Conforms isinstance q.1) ∨
          ∀ q ∈ args.zip params, q.2.IsDict → ∃ fields, q.1 = .object fields := by
  have hdict : ∀ q : Json ν × Documented C, q.2.IsDict →
      (q.2.Conforms isinstance q.1 ↔ ∃ fields, q.1 = .object fields) := by
    rintro ⟨arg, _ | _ | _ | ⟨k, v⟩⟩ h
    · exact h.elim
    · exact h.elim
    · exact h.elim
    · exact Documented.conforms_dictOf
  constructor
  · rintro ⟨b, hb, hiff⟩
    obtain rfl := Option.some.inj ((typecheck_annotationOf params args).symm.trans hb)
    rw [decide_eq_true_eq] at hiff
    by_cases hlen : params.length = args.length
    · refine Or.inr (or_iff_not_imp_left.mpr fun hnone q hq hd => ?_)
      refine (hdict q hd).mp ((hiff.mp ⟨hlen, fun q' hq' => ?_⟩).2 q hq)
      by_contra hnot
      exact hnone ⟨q', hq', not_or.mp hnot⟩
    · exact Or.inl hlen
  · intro h
    refine ⟨_, typecheck_annotationOf params args, ?_⟩
    rw [decide_eq_true_eq]
    constructor
    · rintro ⟨hlen, hall⟩
      refine ⟨hlen, fun q hq => (hall q hq).elim (fun hd => ?_) id⟩
      rcases h with h | ⟨q', hq', hd', hnot⟩ | h
      · exact absurd hlen h
      · exact absurd ((hall q' hq').resolve_left hd') hnot
      · exact (hdict q hd).mpr (h q hq hd)
    · rintro ⟨hlen, hall⟩
      exact ⟨hlen, fun q hq => Or.inr (hall q hq)⟩

/-! ### Built-in classes -/

/-- The classes JSON values are instances of. -/
inductive Builtin where
  | object | str | int | float | bool | list | dict | noneType
  deriving DecidableEq

/-- `isinstance` for them, with the numbers that are of type `int`. A truth
value is an instance of `int` as well. -/
def Builtin.isinstance (isInt : ν → Bool) : Json ν → Builtin → Bool
  | _, object => true
  | .str _, str => true
  | .number n, int => isInt n
  | .number n, float => !isInt n
  | .bool _, int | .bool _, bool => true
  | .array _, list => true
  | .object _, dict => true
  | .null, noneType => true
  | _, _ => false

/-- A list goes for a dictionary. -/
theorem list_for_dict :
    ¬Checks (Builtin.isinstance fun _ : ℤ => true) [.ofClass .str, .dictOf .str .int]
      [.str "A", .array [.number 1]] := by
  rintro ⟨b, hb, hiff⟩
  obtain rfl : true = b := Option.some.inj hb
  exact (hiff.mp rfl).2 (.array [.number 1], .dictOf .str .int)
    (List.mem_cons_of_mem _ List.mem_cons_self)

end UsbipIce.Utils
