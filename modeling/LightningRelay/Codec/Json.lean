import Mathlib.Tactic.Common

/-!
# JSON values

Values with an arbitrary type of numbers.  The accessors answer `none` for a value of another kind, and
the member of a value that has none by that name is `null`.
-/

set_option autoImplicit false

namespace Codec

inductive Json (N : Type) where
  | null
  | bool (b : Bool)
  | num (n : N)
  | str (s : String)
  | arr (items : List (Json N))
  | obj (members : List (String × Json N))

namespace Json

variable {N : Type}

/-- The member of an object. -/
def get (key : String) : Json N → Json N
  | .obj members => (members.lookup key).getD .null
  | _ => .null

def asBool : Json N → Option Bool
  | .bool b => some b
  | _ => none

def asNum : Json N → Option N
  | .num n => some n
  | _ => none

def asStr : Json N → Option String
  | .str s => some s
  | _ => none

end Json

end Codec
