import Mathlib.Data.Rat.Defs
import Mathlib.Algebra.Order.Ring.Rat

/-! Floats of Python, without rounding. -/
namespace EvoHarness

inductive FloatValue where
  | nan
  | finite (q : ℚ)
  | infinite (negative : Bool)
deriving DecidableEq

namespace FloatValue

def atMost (cap : ℚ) : FloatValue → FloatValue
  | .nan => .nan
  | .finite q => .finite (if cap < q then cap else q)
  | .infinite false => .finite cap
  | .infinite true => .infinite true

def reaches (q : ℚ) : FloatValue → Bool
  | .finite s => q ≤ s
  | .infinite negative => !negative
  | .nan => false

def below (q : ℚ) : FloatValue → Bool
  | .finite s => s < q
  | .infinite negative => negative
  | .nan => false

def upTo (q : ℚ) : FloatValue → Bool
  | .finite s => s ≤ q
  | .infinite negative => negative
  | .nan => false

def positive : FloatValue → Bool
  | .finite q => 0 < q
  | _ => false

def Forward : FloatValue → Prop
  | .finite q => 0 ≤ q
  | .infinite negative => negative = false
  | .nan => False

def shift (q : ℚ) : FloatValue → FloatValue
  | .finite s => .finite (q + s)
  | s => s

def neg : FloatValue → FloatValue
  | .nan => .nan
  | .finite q => .finite (-q)
  | .infinite negative => .infinite !negative

end FloatValue
end EvoHarness
