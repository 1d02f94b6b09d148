import Mathlib.Data.List.GetD
import Mathlib.Data.List.Nodup

/-!
# Code page 437

The codec `cp437` reads each byte as one character: the ASCII range as it is,
the upper half through a table. Bytes sent as text of this code page come back
unchanged (`Lib.Cp437.encode_decode`), which is why it can carry any file.
-/

namespace Lib.Cp437

/-- The characters of the bytes from 128 on. -/
def upper : List Char :=
  ['Ç', 'ü', 'é', 'â', 'ä', 'à', 'å', 'ç', 'ê', 'ë', 'è', 'ï', 'î', 'ì', 'Ä', 'Å',
   'É', 'æ', 'Æ', 'ô', 'ö', 'ò', 'û', 'ù', 'ÿ', 'Ö', 'Ü', '¢', '£', '¥', '₧', 'ƒ',
   'á', 'í', 'ó', 'ú', 'ñ', 'Ñ', 'ª', 'º', '¿', '⌐', '¬', '½', '¼', '¡', '«', '»',
   '░', '▒', '▓', '│', '┤', '╡', '╢', '╖', '╕', '╣', '║', '╗', '╝', '╜', '╛', '┐',
   '└', '┴', '┬', '├', '─', '┼', '╞', '╟', '╚', '╔', '╩', '╦', '╠', '═', '╬', '╧',
   '╨', '╤', '╥', '╙', '╘', '╒', '╓', '╫', '╪', '┘', '┌', '█', '▄', '▌', '▐', '▀',
   'α', 'ß', 'Γ', 'π', 'Σ', 'σ', 'µ', 'τ', 'Φ', 'Θ', 'Ω', 'δ', '∞', 'φ', 'ε', '∩',
   '≡', '±', '≥', '≤', '⌠', '⌡', '÷', '≈', '°', '∙', '·', '√', 'ⁿ', '²', '■', Char.ofNat 0xA0]

def decodeByte (b : UInt8) : Char :=
  if b.toNat < 128 then Char.ofNat b.toNat else upper.getD (b.toNat - 128) ' '

/-- The byte of a character, `none` where the code page does not have it. -/
def encodeChar (c : Char) : Option UInt8 :=
  if c.toNat < 128 then some (UInt8.ofNat c.toNat)
  else if c ∈ upper then some (UInt8.ofNat (128 + upper.idxOf c))
  else none

/-- `bytes.decode("cp437")`. -/
def decode (bytes : List UInt8) : String := String.ofList (bytes.map decodeByte)

/-- `text.encode("cp437")`, `none` where it raises. -/
def encode (text : String) : Option (List UInt8) := text.toList.mapM encodeChar

@[simp] theorem length_upper : upper.length = 128 := by decide +kernel

theorem nodup_upper : upper.Nodup := by
  have hcodes : (upper.map Char.toNat).Nodup := by decide +kernel
  exact List.Nodup.of_map _ hcodes

theorem le_of_mem_upper : ∀ c ∈ upper, 128 ≤ c.toNat := by
  have hall : upper.all (fun c => Nat.ble 128 c.toNat) = true := by decide +kernel
  intro c hc
  exact Nat.le_of_ble_eq_true (List.all_eq_true.mp hall c hc)

@[simp] theorem encodeChar_decodeByte (b : UInt8) : encodeChar (decodeByte b) = some b := by
  have hb := b.toNat_lt
  rw [decodeByte]
  split
  · rename_i hlow
    have hvalid : b.toNat.isValidChar := Or.inl (by omega)
    have hchar : (Char.ofNat b.toNat).toNat = b.toNat := by
      rw [Char.ofNat, dif_pos hvalid]
      rfl
    rw [encodeChar, hchar, if_pos hlow, UInt8.ofNat_toNat]
  · rename_i hlow
    have hlt : b.toNat - 128 < upper.length := by rw [length_upper]; omega
    have hmem := List.getElem_mem hlt
    have hnot : ¬(upper[b.toNat - 128].toNat < 128) := by
      have := le_of_mem_upper _ hmem
      omega
    have hsum : 128 + (b.toNat - 128) = b.toNat := by omega
    rw [List.getD_eq_getElem _ _ hlt, encodeChar, if_neg hnot, if_pos hmem,
      nodup_upper.idxOf_getElem, hsum, UInt8.ofNat_toNat]

/-- **What is decoded is encoded again to the same bytes.** -/
@[simp] theorem encode_decode (bytes : List UInt8) : encode (decode bytes) = some bytes := by
  rw [encode, decode, String.toList_ofList]
  induction bytes with
  | nil => rfl
  | cons b bytes ih =>
    simp [ih]

end Lib.Cp437
