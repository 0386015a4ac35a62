import EvoHarness.Library.PyText
import EvoHarness.Library.Floats
import Mathlib.Data.Rat.Floor

/-! What `json.loads` gives in Python, where integers and floats are told apart, and the operations that
take any value. -/
namespace EvoHarness.PyData
open PyText

inductive Data where
  | null
  | bool (b : Bool)
  | int (z : ℤ)
  | float (x : FloatValue)
  | string (s : Text)
  | array (xs : List Data)
  | object (ps : List (Text × Data))

def get (ps : List (Text × Data)) (k : Text) : Data := ((ps.find? (·.1 = k)).map (·.2)).getD .null

def isText (s : Text) : Data → Bool
  | .string t => t = s
  | _ => false

def members : Data → List (Text × Data)
  | .object ps => ps
  | _ => []

def truthy : Data → Bool
  | .null => false
  | .bool b => b
  | .int z => z ≠ 0
  | .float (.finite q) => q ≠ 0
  | .float _ => true
  | .string s => s ≠ []
  | .array xs => !xs.isEmpty
  | .object ps => !ps.isEmpty

/-- What a `for` loop goes through, or `none` where it raises `TypeError`. -/
def iterate? : Data → Option (List Data)
  | .array xs => some xs
  | .string s => some (s.map fun c => .string [c])
  | .object ps => some (ps.map fun p => .string p.1)
  | _ => none

inductive LoadsFault where
  | valueError (message : Text)
  | recursionError

/-- The built-in functions, as far as they read or show texts: `json.loads`, `json.dumps`, `int` of a text, `str`
and `repr`. -/
structure Builtins where
  loads : Text → Except LoadsFault Data
  dumps : Data → Text
  intText : Text → Option ℤ
  strOf : Data → Text
  repr : Data → Text

def Builtins.str (py : Builtins) : Data → Text
  | .string s => s
  | x => py.strOf x

def truncate (q : ℚ) : ℤ := if q < 0 then ⌈q⌉ else ⌊q⌋

end EvoHarness.PyData
