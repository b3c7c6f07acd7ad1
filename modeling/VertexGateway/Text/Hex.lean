import Mathlib

/-!
# Hexadecimal digits

The characters that JSON's unicode escapes and the escapes of a packed id are written with, and
the numbers they stand for.
-/

namespace VertexGateway.Hex

/-- The value of a hexadecimal digit, in either case. -/
def hexValue (c : Char) : Option ℕ :=
  if '0' ≤ c ∧ c ≤ '9' then some (c.toNat - '0'.toNat)
  else if 'a' ≤ c ∧ c ≤ 'f' then some (c.toNat - 'a'.toNat + 10)
  else if 'A' ≤ c ∧ c ≤ 'F' then some (c.toNat - 'A'.toNat + 10)
  else none

theorem hexValue_digitChar : ∀ digit < 16, hexValue digit.digitChar = some digit := by
  decide

/-- Digits are ASCII. -/
theorem toNat_lt_of_hexValue {c : Char} {value : ℕ} (h : hexValue c = some value) :
    c.toNat < 0x80 := by
  have hbound (last : Char) (hlast : last.toNat < 0x80) (hle : c ≤ last) : c.toNat < 0x80 :=
    lt_of_le_of_lt (Char.le_def.mp hle) hlast
  unfold hexValue at h
  split_ifs at h with hdecimal hlower hupper
  · exact hbound '9' (by decide) hdecimal.2
  · exact hbound 'f' (by decide) hlower.2
  · exact hbound 'F' (by decide) hupper.2

end VertexGateway.Hex
