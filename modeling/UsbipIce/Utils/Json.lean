import Mathlib.Data.List.Basic
import Mathlib.Algebra.Group.Defs

/-!
# JSON values

The values `json.loads` makes, as the program looks at them: their truth value,
and what `get` finds in a dictionary. Numbers are of any type with a zero.
-/

namespace UsbipIce

/-- A JSON value. -/
inductive Json (ν : Type*) where
  | null
  | bool (b : Bool)
  | number (n : ν)
  | str (s : String)
  | array (l : List (Json ν))
  | object (fields : List (String × Json ν))

namespace Json

variable {ν : Type*}

/-- The truth value of a value: that of zero and of whatever is empty is
`False`. -/
def truthy [Zero ν] [DecidableEq ν] : Json ν → Bool
  | null => false
  | bool b => b
  | number n => decide (n ≠ 0)
  | str s => decide (s ≠ "")
  | array l => !l.isEmpty
  | object fields => !fields.isEmpty

/-- `get` of a dictionary. -/
def get (fields : List (String × Json ν)) (key : String) : Option (Json ν) := fields.lookup key

section Truth

variable [Zero ν] [DecidableEq ν]

@[simp] theorem truthy_object {fields : List (String × Json ν)} :
    (object fields).truthy = true ↔ fields ≠ [] := by
  cases fields <;> simp [truthy]

end Truth

end Json

end UsbipIce
