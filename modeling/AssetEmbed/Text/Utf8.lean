/-
  AssetEmbed.Text.Utf8 — text as bytes, and bytes shown as text.

  A file name is a sequence of bytes; a stored path, a symbol and a message
  are text.  This file is the border between the two:

    * `Utf8.encode`      — the bytes of a text,
    * `Utf8.decode?`     — the text of bytes, if they are well formed,
    * `Utf8.decodeLossy` — the text that shows any bytes at all, with one
      replacement character for each maximal ill-formed run.

  Main results:
    * `decode?_eq_some_iff` — decoding accepts exactly what encoding makes.
    * `decodeLossy_encode`  — well-formed bytes are shown as they are.
-/

namespace AssetEmbed.Utf8

/-! ## §1. Exact conversion. -/

/-- The UTF-8 bytes of a text. -/
def encode (s : String) : List UInt8 := s.toByteArray.data.toList

/-- The text whose bytes these are, or `none` if they are not well-formed UTF-8. -/
def decode? (bytes : List UInt8) : Option String := String.fromUTF8? ⟨bytes.toArray⟩

theorem encode_injective {s t : String} (h : encode s = encode t) : s = t := by
  apply String.toByteArray_inj.1
  apply ByteArray.ext
  exact Array.toList_inj.1 h

theorem decode?_encode (s : String) : decode? (encode s) = some s := by
  have hb : (⟨(encode s).toArray⟩ : ByteArray) = s.toByteArray := by
    apply ByteArray.ext
    simp [encode]
  simp only [decode?, hb, String.fromUTF8?, dif_pos s.isValidUTF8]
  rfl

theorem encode_of_decode? {bytes : List UInt8} {s : String}
    (h : decode? bytes = some s) : encode s = bytes := by
  unfold decode? String.fromUTF8? at h
  split at h
  · cases h
    simp [encode, String.fromUTF8]
  · cases h

/-- Decoding accepts exactly the encoded texts. -/
theorem decode?_eq_some_iff {bytes : List UInt8} {s : String} :
    decode? bytes = some s ↔ bytes = encode s :=
  ⟨fun h => (encode_of_decode? h).symm, fun h => h ▸ decode?_encode s⟩

/-! ## §2. Showing arbitrary bytes. -/

/-- A character begun but not yet complete: how many bytes are still missing,
the bits read so far, and the bounds of the next byte. -/
structure Pending where
  missing : Nat
  value : Nat
  low : UInt8
  high : UInt8

/-- The mark that stands for an ill-formed run. -/
def replacement : Char := '\uFFFD'

/-- What one byte at the start of a character means: a whole character, the
lead of a longer one, or an ill-formed byte. -/
def lead (b : UInt8) : List Char × Option Pending :=
  if b < 0x80 then ([Char.ofNat b.toNat], none)
  else if b < 0xC2 then ([replacement], none)
  else if b < 0xE0 then ([], some ⟨1, b.toNat - 0xC0, 0x80, 0xBF⟩)
  else if b = 0xE0 then ([], some ⟨2, 0, 0xA0, 0xBF⟩)
  else if b = 0xED then ([], some ⟨2, 0xD, 0x80, 0x9F⟩)
  else if b < 0xF0 then ([], some ⟨2, b.toNat - 0xE0, 0x80, 0xBF⟩)
  else if b = 0xF0 then ([], some ⟨3, 0, 0x90, 0xBF⟩)
  else if b < 0xF4 then ([], some ⟨3, b.toNat - 0xF0, 0x80, 0xBF⟩)
  else if b = 0xF4 then ([], some ⟨3, 4, 0x80, 0x8F⟩)
  else ([replacement], none)

/-- Reads bytes one by one.  A byte that does not continue the pending
character ends it as ill formed and is read again as the start of another. -/
def scan : Option Pending → List UInt8 → List Char
  | none, [] => []
  | some _, [] => [replacement]
  | none, b :: bs => (lead b).1 ++ scan (lead b).2 bs
  | some p, b :: bs =>
    if p.low ≤ b ∧ b ≤ p.high then
      let value := p.value * 64 + b.toNat % 64
      if p.missing ≤ 1 then Char.ofNat value :: scan none bs
      else scan (some ⟨p.missing - 1, value, 0x80, 0xBF⟩) bs
    else replacement :: ((lead b).1 ++ scan (lead b).2 bs)

/-- The text that shows `bytes`: itself where well formed, and otherwise with
a replacement character for every maximal ill-formed run. -/
def decodeLossy (bytes : List UInt8) : String :=
  match decode? bytes with
  | some s => s
  | none => String.ofList (scan none bytes)

theorem decodeLossy_encode (s : String) : decodeLossy (encode s) = s := by
  simp [decodeLossy, decode?_encode]

end AssetEmbed.Utf8
