import UsbipIce.Utils.Typecheck

/-!
# Handlers that take their arguments from a request

`inject_and_return_json` wraps a handler of an HTTP API: the wrapper looks up the
names of the handler's parameters in the JSON body of the request, checks the
values against the signature, and calls the handler with them.

A body is well formed without being an object, and an object may lack a name.
The first makes `json.get` raise; the second goes unnoticed, since
`json_to_args` looks for `None` among the names and not among the values, and a
parameter without an annotation takes any value. The two are all that is wrong
with the wrapper (`UsbipIce.Utils.injects_iff`).
-/

namespace UsbipIce.Utils

variable {C ν : Type*}

/-! ### The wrapper -/

/-- A parameter of a signature. -/
structure Parameter (C : Type*) where
  name : String
  annotationForm : AnnotationForm C

/-- A request: its content type, and what `get_json` returns unless it
raises. -/
structure Request (ν : Type*) where
  contentType : String
  json : Option (Json ν)

/-- The answer to a request. -/
inductive Answer (ν : Type*) where
  | response (status : ℕ)
  | jsonify (res : Json ν)

/-- What the wrapper has done: the calls of the handler, and the answer unless
an exception was raised. -/
structure Wrapped (ν : Type*) where
  calls : List (List (Json ν))
  answer : Option (Answer ν)

/-- `x is None` for a name, which is a string. -/
def isNone (_ : String) : Bool := false

/-- What `json.get` returns for a key, `None` being the value `null` as well. -/
def getValue (fields : List (String × Json ν)) (key : String) : Json ν :=
  (Json.get fields key).getD .null

/-- `json_to_args`: the values, or `False`; it raises for a body without
`get`. -/
def jsonToArgs (json : Json ν) (parameters : List String) : Option (Option (List (Json ν))) :=
  match json with
  | .object fields =>
    if parameters.any isNone then some none else some (some (parameters.map (getValue fields)))
  | .null | .bool _ | .number _ | .str _ | .array _ => none

/-- The answer for what the handler has returned. -/
def answerOf : Json ν → Answer ν
  | .bool true | .null => .response 200
  | .bool false => .response 500
  | res => .jsonify res

/-- **The wrapper** of a handler, of which is known what it returns for which
arguments, or that it raises. -/
def handlerWrapper (isinstance : Json ν → C → Bool) (params : List (Parameter C))
    (func : List (Json ν) → Option (Json ν)) (request : Request ν) : Wrapped ν :=
  if request.contentType ≠ "application/json" then ⟨[], some (.response 400)⟩
  else
    match request.json with
    | none => ⟨[], some (.response 400)⟩
    | some json =>
      match jsonToArgs json (params.map Parameter.name) with
      | none => ⟨[], none⟩
      -- `len(False)` raises in `typecheck`
      | some none => ⟨[], none⟩
      | some (some args) =>
        match typecheck isinstance (params.map Parameter.annotationForm) args with
        | none => ⟨[], none⟩
        | some false => ⟨[], some (.response 400)⟩
        | some true => ⟨[args], (func args).map answerOf⟩

/-! ### What it is to do -/

/-- The annotation of a parameter with a class, or without any. -/
def classForm : Option C → Documented C
  | none => .unannotated
  | some c => .ofClass c

/-- A parameter that is annotated with a class, or not at all. -/
def parameter (p : String × Option C) : Parameter C := ⟨p.1, (classForm p.2).annotationOf⟩

/-- The values of a body under the names of the parameters. -/
def valuesOf (params : List (String × Option C)) (fields : List (String × Json ν)) :
    List (Json ν) :=
  params.map fun p => getValue fields p.1

/-- A body the handler is to be called for: an object in which every name is a
key, and whose values are accepted. -/
def Accepted (isinstance : Json ν → C → Bool) (params : List (String × Option C))
    (fields : List (String × Json ν)) : Prop :=
  (∀ p ∈ params, p.1 ∈ fields.map Prod.fst) ∧
    typecheck isinstance (params.map fun p => (parameter p).annotationForm)
      (valuesOf params fields) = some true

/-- **The wrapper does what it is to do** about a body: it calls the handler
once, with the values in their order, where the body is accepted, and answers 400
without a call where it is not; and it raises nothing that the handler has not
raised. -/
structure Injects (isinstance : Json ν → C → Bool) (params : List (String × Option C))
    (func : List (Json ν) → Option (Json ν)) (body : Json ν) : Prop where
  calls : ∀ fields, body = .object fields → Accepted isinstance params fields →
    (handlerWrapper isinstance (params.map parameter) func
      ⟨"application/json", some body⟩).calls = [valuesOf params fields]
  refuses : (∀ fields, body = .object fields → ¬Accepted isinstance params fields) →
    handlerWrapper isinstance (params.map parameter) func ⟨"application/json", some body⟩ =
      ⟨[], some (.response 400)⟩
  raises : (handlerWrapper isinstance (params.map parameter) func
      ⟨"application/json", some body⟩).answer = none →
    ∃ args ∈ (handlerWrapper isinstance (params.map parameter) func
      ⟨"application/json", some body⟩).calls, func args = none

/-! ### What it does -/

variable {isinstance : Json ν → C → Bool} {params : List (String × Option C)}
  {func : List (Json ν) → Option (Json ν)} {fields : List (String × Json ν)}

@[simp] theorem jsonToArgs_object (fields : List (String × Json ν)) (parameters : List String) :
    jsonToArgs (.object fields) parameters = some (some (parameters.map (getValue fields))) := by
  have hnone : parameters.any isNone = false := List.any_eq_false.mpr fun _ _ => Bool.false_ne_true
  rw [jsonToArgs, hnone]
  rfl

/-- A body that is no object makes `json.get` raise. -/
theorem handlerWrapper_of_not_object {body : Json ν} (h : ∀ fields, body ≠ .object fields) :
    handlerWrapper isinstance (params.map parameter) func ⟨"application/json", some body⟩ =
      ⟨[], none⟩ := by
  cases body with
  | object fields => exact absurd rfl (h fields)
  | null | bool b | number n | str s | array l => rfl

/-- `typecheck` accepts the values where each is an instance of the class its
parameter is annotated with. -/
theorem typecheck_values :
    typecheck isinstance (params.map fun p => (parameter p).annotationForm)
      (valuesOf params fields) =
      some (decide (∀ p ∈ params, ∀ c, p.2 = some c →
        isinstance (getValue fields p.1) c = true)) := by
  have hmap : (params.map fun p => (parameter p).annotationForm) =
      (params.map fun p => classForm p.2).map Documented.annotationOf := by
    rw [List.map_map]
    rfl
  rw [hmap, typecheck_annotationOf]
  refine congrArg some (decide_eq_decide.mpr ?_)
  have hzip : (valuesOf params fields).zip (params.map fun p => classForm p.2) =
      params.map fun p => (getValue fields p.1, classForm p.2) := by
    rw [valuesOf, List.zip_map']
  rw [hzip, valuesOf, List.length_map, List.length_map, and_iff_right rfl]
  simp only [List.forall_mem_map]
  refine forall₂_congr fun p _ => ?_
  obtain ⟨name, _ | c⟩ := p
  · simp [classForm, Documented.Conforms]
  · simp [classForm, Documented.Conforms, Documented.IsDict]

/-- **The wrapper on an object**: it looks only at what `typecheck` says. -/
theorem handlerWrapper_object :
    handlerWrapper isinstance (params.map parameter) func
        ⟨"application/json", some (.object fields)⟩ =
      if ∀ p ∈ params, ∀ c, p.2 = some c → isinstance (getValue fields p.1) c = true then
        ⟨[valuesOf params fields], (func (valuesOf params fields)).map answerOf⟩
      else ⟨[], some (.response 400)⟩ := by
  have hnames : ((params.map parameter).map Parameter.name).map (getValue fields) =
      valuesOf params fields := by
    rw [List.map_map, List.map_map]
    rfl
  have hannotations : (params.map parameter).map Parameter.annotationForm =
      params.map fun p => (parameter p).annotationForm := List.map_map
  rw [handlerWrapper, if_neg (not_not.mpr rfl)]
  simp only [jsonToArgs_object, hnames, hannotations, typecheck_values]
  split_ifs with h
  · rw [decide_eq_true h]
  · rw [decide_eq_false h]

/-- **The wrapper does what it is to do** for an object in which every name is a
key, or some value is refused anyway, be it the `None` under a missing name; and
for no other body. -/
theorem injects_iff (isinstance : Json ν → C → Bool) (params : List (String × Option C))
    (func : List (Json ν) → Option (Json ν)) (body : Json ν) :
    Injects isinstance params func body ↔
      ∃ fields, body = .object fields ∧
        ((∀ p ∈ params, p.1 ∈ fields.map Prod.fst) ∨
          ∃ p ∈ params, ∃ c, p.2 = some c ∧ isinstance (getValue fields p.1) c = false) := by
  constructor
  · intro h
    by_cases hobject : ∃ fields, body = .object fields
    · obtain ⟨fields, rfl⟩ := hobject
      refine ⟨fields, rfl, or_iff_not_imp_left.mpr fun hkeys => ?_⟩
      by_contra hnone
      push Not at hnone
      have hall : ∀ p ∈ params, ∀ c, p.2 = some c → isinstance (getValue fields p.1) c = true :=
        fun p hp c hc => eq_true_of_ne_false (hnone p hp c hc)
      -- the handler is called, although a name is missing
      have hrefused := h.refuses fun fields' heq haccepted => by
        obtain rfl := Json.object.inj heq
        exact hkeys haccepted.1
      rw [handlerWrapper_object, if_pos hall] at hrefused
      exact List.cons_ne_nil _ _ (Wrapped.mk.inj hrefused).1
    · have hno : ∀ fields, body ≠ .object fields := not_exists.mp hobject
      have hrefused := h.refuses fun fields heq => absurd heq (hno fields)
      rw [handlerWrapper_of_not_object hno] at hrefused
      cases (Wrapped.mk.inj hrefused).2
  · rintro ⟨fields, rfl, hcond⟩
    refine ⟨fun fields' heq haccepted => ?_, fun hnot => ?_, fun hraised => ?_⟩
    · obtain rfl := Json.object.inj heq
      have hall := of_decide_eq_true (Option.some.inj (typecheck_values.symm.trans haccepted.2))
      rw [handlerWrapper_object, if_pos hall]
    · rw [handlerWrapper_object, if_neg]
      intro hall
      rcases hcond with hkeys | ⟨p, hp, c, hc, hfalse⟩
      · exact hnot fields rfl ⟨hkeys, typecheck_values.trans (congrArg some (decide_eq_true hall))⟩
      · rw [hall p hp c hc] at hfalse
        cases hfalse
    · rw [handlerWrapper_object] at hraised ⊢
      split_ifs at hraised ⊢ with hall
      exact ⟨_, List.mem_cons_self, Option.map_eq_none_iff.mp hraised⟩

/-- The body `[]` makes the wrapper of `endall` raise, and an object without the
key `value` reaches a handler whose parameter has no annotation. -/
theorem array_raises :
    ¬Injects (Builtin.isinstance fun _ : ℤ => true) [("name", some Builtin.str)]
        (fun _ => some (.bool true)) (.array []) ∧
      ¬Injects (Builtin.isinstance fun _ : ℤ => true) [("value", none)]
        (fun _ => some (.bool true)) (.object []) := by
  constructor
  · intro h
    have hrefused := h.refuses nofun
    cases (Wrapped.mk.inj hrefused).2
  · intro h
    have hrefused := h.refuses fun fields heq haccepted => by
      obtain rfl := Json.object.inj heq
      exact absurd (haccepted.1 _ List.mem_cons_self) List.not_mem_nil
    exact List.cons_ne_nil _ _ (Wrapped.mk.inj hrefused).1

end UsbipIce.Utils
