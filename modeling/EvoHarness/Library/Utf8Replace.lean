import EvoHarness.Library.Bytes

/-! `bytes.decode("utf-8", "replace")`: what is no character becomes U+FFFD, once for every longest
beginning of one. -/
namespace EvoHarness.PyBytes
open PyText

/-- A character that is not complete: the bytes it still misses, what they are added to, and the
range of the next one. -/
structure Pending where
  missing : ℕ
  value : ℕ
  low : UInt8 := 0x80
  high : UInt8 := 0xBF

inductive Lead where
  | whole (c : Char)
  | first (p : Pending)
  | none

def lead (b : UInt8) : Lead :=
  if b < 0x80 then .whole (Char.ofNat b.toNat)
  else if b < 0xC2 then .none
  else if b < 0xE0 then .first { missing := 1, value := b.toNat - 0xC0 }
  else if b = 0xE0 then .first { missing := 2, value := 0, low := 0xA0 }
  else if b = 0xED then .first { missing := 2, value := 0xD, high := 0x9F }
  else if b < 0xF0 then .first { missing := 2, value := b.toNat - 0xE0 }
  else if b = 0xF0 then .first { missing := 3, value := 0, low := 0x90 }
  else if b < 0xF4 then .first { missing := 3, value := b.toNat - 0xF0 }
  else if b = 0xF4 then .first { missing := 3, value := 4, high := 0x8F }
  else .none

def replacement : Char := Char.ofNat 0xFFFD

def decodeReplaceFrom : Option Pending → Bytes → Text
  | none, [] => []
  | some _, [] => [replacement]
  | none, b :: rest =>
    match lead b with
    | .whole c => c :: decodeReplaceFrom none rest
    | .first p => decodeReplaceFrom (some p) rest
    | .none => replacement :: decodeReplaceFrom none rest
  | some p, b :: rest =>
    if p.low ≤ b ∧ b ≤ p.high then
      let value := p.value * 64 + (b.toNat - 0x80)
      if p.missing = 1 then Char.ofNat value :: decodeReplaceFrom none rest
      else decodeReplaceFrom (some { missing := p.missing - 1, value }) rest
    else
      -- the byte that does not fit is looked at again
      replacement ::
        match lead b with
        | .whole c => c :: decodeReplaceFrom none rest
        | .first p => decodeReplaceFrom (some p) rest
        | .none => replacement :: decodeReplaceFrom none rest

def decodeReplace (b : Bytes) : Text := decodeReplaceFrom none b

/-- A byte outside, the encoding of two characters, and a character that was cut off. -/
example : decodeReplace ([0xFF] ++ encode "é€".toList ++ [0xE2, 0x82]) = replacement :: "é€".toList ++ [replacement] := by
  decide +kernel

end EvoHarness.PyBytes
