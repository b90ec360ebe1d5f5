/-
Values as `json.loads` makes them: `None`, Booleans, integers of any size, floats (here their texts), strings, lists and
dicts with distinct keys.
-/
import AtlasRag.Platform.Str

namespace AtlasRag.Platform

inductive Value where
  | null
  | bool (b : Bool)
  | int (n : ℤ)
  | float (text : Str)
  | str (s : Str)
  | list (items : List Value)
  | dict (entries : List (Str × Value))
deriving Repr

abbrev Dict := List (Str × Value)

namespace Value

/-- `isinstance(x, str)` -/
def str? : Value → Option Str
  | .str s => some s
  | _ => none

/-- `isinstance(x, int) and not isinstance(x, bool)` -/
def int? : Value → Option ℤ
  | .int n => some n
  | _ => none

def bool? : Value → Option Bool
  | .bool b => some b
  | _ => none

def list? : Value → Option (List Value)
  | .list xs => some xs
  | _ => none

def dict? : Value → Option Dict
  | .dict d => some d
  | _ => none

section

variable {v : Value}

theorem str?_eq_some {s : Str} : v.str? = some s ↔ v = .str s := by cases v <;> simp [str?]

theorem int?_eq_some {n : ℤ} : v.int? = some n ↔ v = .int n := by cases v <;> simp [int?]

theorem list?_eq_some {xs : List Value} : v.list? = some xs ↔ v = .list xs := by cases v <;> simp [list?]

theorem dict?_eq_some {d : Dict} : v.dict? = some d ↔ v = .dict d := by cases v <;> simp [dict?]

end

end Value

/-- `d.get(key)` -/
def Dict.get (d : Dict) (key : Str) : Option Value := d.lookup key

end AtlasRag.Platform
