import Mathlib.Data.List.Basic

/-!
# Bytes

The bytes of a Go string or slice where its capacity does not matter, of a packet and of a buffer.
-/

abbrev Bytes := List UInt8

/-- The bytes of an ASCII literal. -/
def ascii (s : String) : Bytes := s.toList.map fun c => UInt8.ofNat c.toNat
