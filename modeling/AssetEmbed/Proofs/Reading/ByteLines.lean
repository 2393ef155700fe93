/-
  AssetEmbed.Proofs.Reading.ByteLines — byte arrays read back from their lines.

  A line is cut at its commas, and what stands between two of them, less the
  blanks around it, is a value.  The values of all lines in a row are the bytes,
  wherever the lines are cut.

  Main results:
    * `values_line`      — the values on the line of a chunk.
    * `lineCount_le_iff` — there are as few lines as hold all the bytes.
    * `byteLines_exact`  — what the lines of a byte array are.
-/
import AssetEmbed.Proofs.Reading.Line
import Mathlib.Algebra.Order.Floor.Div
import Mathlib.Data.List.DropRight

namespace AssetEmbed.Reading

open ByteLiteral

/-! ## §1. Reading lines. -/

/-- Characters without the blanks around them. -/
def trim (cs : List Char) : List Char :=
  (cs.dropWhile Char.isWhitespace).rdropWhile Char.isWhitespace

/-- The values on a line: what stands between its commas. -/
def values (line : String) : List (List Char) :=
  ((line.toList.splitOn ',').map trim).filter (· ≠ [])

/-- A digit of a byte literal. -/
def isSmallHexDigit (c : Char) : Bool := c.isDigit || decide ('a' ≤ c ∧ c ≤ 'f')

/-- The byte that a value stands for: `0x` and exactly two digits. -/
def octet? : List Char → Option UInt8
  | ['0', 'x', high, low] =>
    if isSmallHexDigit high ∧ isSmallHexDigit low then
      some (UInt8.ofNat (Numeral.digitValue high * 16 + Numeral.digitValue low))
    else none
  | _ => none

/-- The bytes that lines stand for, if every value is one. -/
def octets? (lines : List String) : Option (List UInt8) := (lines.flatMap values).mapM octet?

/-! ## §2. The values on a line. -/

theorem trim_eq_self {cs : List Char} (hhead : ∀ c ∈ cs.head?, c.isWhitespace = false)
    (hlast : ∀ c ∈ cs.getLast?, c.isWhitespace = false) : trim cs = cs := by
  have hdrop : cs.dropWhile Char.isWhitespace = cs := by
    cases cs with
    | nil => rfl
    | cons c rest => rw [List.dropWhile_cons_of_neg (by simp [hhead c rfl])]
  unfold trim
  rw [hdrop, List.rdropWhile_eq_self_iff]
  intro hne
  simp [hlast _ (List.getLast?_eq_some_getLast hne)]

theorem hexDigit_notWhitespace : ∀ n < 16, (Numeral.hexDigit n).isWhitespace = false := by decide

theorem isSmallHexDigit_hexDigit : ∀ n < 16, isSmallHexDigit (Numeral.hexDigit n) = true := by
  decide

theorem trim_byteWord (b : UInt8) : trim (byteWord b) = byteWord b := by
  refine trim_eq_self (fun c hc => ?_) fun c hc => ?_
  · cases hc
    rfl
  · cases hc
    exact hexDigit_notWhitespace (b.toNat % 16) (by omega)

theorem trim_blank_byteWord (b : UInt8) : trim (' ' :: byteWord b) = byteWord b :=
  trim_byteWord b

theorem comma_notMem_byteWord (b : UInt8) : ',' ∉ byteWord b := by
  intro hm
  have hpart := List.all_eq_true.1 (isWord_byteWord b).2 ',' hm
  exact absurd hpart (by decide)

/-- A value is read as the byte that it was written for. -/
theorem octet?_byteWord (b : UInt8) : octet? (byteWord b) = some b := by
  have hb := b.toNat_lt
  have hhigh : b.toNat / 16 < 16 := by omega
  have hlow : b.toNat % 16 < 16 := by omega
  have hvalue : b.toNat / 16 * 16 + b.toNat % 16 = b.toNat := by omega
  rw [byteWord, Numeral.hexPair, octet?,
    if_pos ⟨isSmallHexDigit_hexDigit _ hhigh, isSmallHexDigit_hexDigit _ hlow⟩,
    Numeral.digitValue_hexDigit _ hhigh, Numeral.digitValue_hexDigit _ hlow, hvalue,
    UInt8.ofNat_toNat]

/-- The line of the values of a chunk. -/
def line (chunk : List UInt8) : String := String.intercalate " " (chunk.map literal)

/-- What stands on a line behind the comma after its first value. -/
def behind (bytes : List UInt8) : List Char := bytes.flatMap fun b => ' ' :: byteWord b ++ [',']

theorem toList_line (b : UInt8) (rest : List UInt8) :
    (line (b :: rest)).toList = byteWord b ++ ',' :: behind rest := by
  induction rest generalizing b with
  | nil =>
    unfold line
    rw [List.map_singleton, String.intercalate_singleton, toList_literal]
    rfl
  | cons c rest ih =>
    have hline : line (b :: c :: rest) = literal b ++ " " ++ line (c :: rest) := by
      unfold line
      rw [List.map_cons, List.map_cons, String.intercalate_cons_cons]
    rw [hline, String.toList_append, String.toList_append, toList_literal, ih]
    simp [behind]

theorem splitOn_behind (bytes : List UInt8) :
    (behind bytes).splitOn ',' = bytes.map (fun b => ' ' :: byteWord b) ++ [[]] := by
  induction bytes with
  | nil => rfl
  | cons b rest ih =>
    have hcomma : ',' ∉ ' ' :: byteWord b := by
      rw [List.mem_cons, not_or]
      exact ⟨by decide, comma_notMem_byteWord b⟩
    have hbehind : behind (b :: rest) = (' ' :: byteWord b) ++ ',' :: behind rest := by
      simp [behind]
    rw [hbehind, List.splitOn_append_cons_self_of_not_mem hcomma, ih]
    rfl

/-- The values on the line of a chunk are its bytes in order. -/
theorem values_line (chunk : List UInt8) : values (line chunk) = chunk.map byteWord := by
  cases chunk with
  | nil => rfl
  | cons b rest =>
    have hne : ∀ w ∈ (b :: rest).map byteWord, (w ≠ []) = true := by
      intro w hw
      obtain ⟨b', -, rfl⟩ := List.mem_map.1 hw
      simp [byteWord]
    have hrest : (rest.map fun b => ' ' :: byteWord b).map trim = rest.map byteWord := by
      rw [List.map_map]
      exact List.map_congr_left fun b' _ => trim_blank_byteWord b'
    -- the piece behind the last comma is empty
    have hpieces : ((line (b :: rest)).toList.splitOn ',').map trim
        = (b :: rest).map byteWord ++ [[]] := by
      rw [toList_line, List.splitOn_append_cons_self_of_not_mem (comma_notMem_byteWord b),
        splitOn_behind, List.map_cons, List.map_append, trim_byteWord, hrest]
      rfl
    unfold values
    rw [hpieces, List.filter_append, List.filter_eq_self.2 (by simpa using hne)]
    simp

/-- A line ends with a comma. -/
theorem exists_behind_eq_concat (rest : List UInt8) :
    ∃ front, ',' :: behind rest = front ++ [','] := by
  rcases List.eq_nil_or_concat' rest with rfl | ⟨others, b, rfl⟩
  · exact ⟨[], rfl⟩
  · exact ⟨',' :: (behind others ++ ' ' :: byteWord b), by simp [behind]⟩

theorem trim_line (b : UInt8) (rest : List UInt8) :
    trim (line (b :: rest)).toList = (line (b :: rest)).toList := by
  rw [toList_line]
  refine trim_eq_self (fun c hc => ?_) fun c hc => ?_
  · cases hc
    rfl
  · obtain ⟨front, hfront⟩ := exists_behind_eq_concat rest
    rw [hfront, ← List.append_assoc, List.getLast?_concat] at hc
    cases hc
    rfl

/-! ## §3. Where lines are cut. -/

variable {bytes : List UInt8} {perLine : Nat}

theorem lineCount_eq (count perLine : Nat) : lineCount count perLine = count ⌈/⌉ perLine :=
  (Nat.ceilDiv_eq_add_pred_div count perLine).symm

/-- There are as few lines as hold all the bytes. -/
theorem lineCount_le_iff (h : 0 < perLine) {count lines : Nat} :
    lineCount count perLine ≤ lines ↔ count ≤ perLine * lines := by
  rw [lineCount_eq, ceilDiv_le_iff_le_mul h]

/-- A line holds what there is from its first value on, but not too much of it. -/
theorem length_chunk (bytes : List UInt8) (perLine i : Nat) :
    (bytes.toArray.extract (i * perLine) (i * perLine + perLine)).toList.length
      = min perLine (bytes.length - i * perLine) := by
  rw [Array.length_toList, Array.size_extract, List.size_toArray]
  omega

/-- All lines before the last are full. -/
theorem length_of_mem_dropLast (h : 0 < perLine) {chunk : List UInt8}
    (hc : chunk ∈ (chunks bytes perLine).dropLast) : chunk.length = perLine := by
  unfold chunks at hc
  cases hcount : lineCount bytes.length perLine with
  | zero => simp [hcount] at hc
  | succ last =>
    rw [hcount, List.range_succ, List.map_append, List.map_singleton, List.dropLast_concat] at hc
    obtain ⟨i, hi, rfl⟩ := List.mem_map.1 hc
    have hlast : ¬ bytes.length ≤ perLine * last := by
      rw [← lineCount_le_iff h]
      omega
    -- the next line begins before the bytes are at their end
    have hnext : perLine * (i + 1) ≤ perLine * last :=
      Nat.mul_le_mul_left perLine (List.mem_range.1 hi)
    rw [length_chunk, Nat.mul_comm i]
    rw [Nat.mul_succ] at hnext
    omega

/-- The last line holds something, and not too much. -/
theorem length_of_mem_getLast? (h : 0 < perLine) {chunk : List UInt8}
    (hc : chunk ∈ (chunks bytes perLine).getLast?) :
    1 ≤ chunk.length ∧ chunk.length ≤ perLine := by
  unfold chunks at hc
  cases hcount : lineCount bytes.length perLine with
  | zero => simp [hcount] at hc
  | succ last =>
    rw [hcount, List.range_succ, List.map_append, List.map_singleton, List.getLast?_concat] at hc
    cases hc
    have hlast : ¬ bytes.length ≤ perLine * last := by
      rw [← lineCount_le_iff h]
      omega
    rw [length_chunk, Nat.mul_comm last]
    omega

/-- No line is without a value. -/
theorem ne_nil_of_mem_chunks (h : 0 < perLine) {chunk : List UInt8}
    (hc : chunk ∈ chunks bytes perLine) : chunk ≠ [] := by
  refine List.ne_nil_of_length_pos ?_
  rcases List.eq_nil_or_concat' (chunks bytes perLine) with hnil | ⟨front, last, hchunks⟩
  · rw [hnil] at hc
    cases hc
  · rw [hchunks] at hc
    rcases List.mem_append.1 hc with hfront | hlast
    · have hmem : chunk ∈ (chunks bytes perLine).dropLast := by
        rwa [hchunks, List.dropLast_concat]
      have hfull := length_of_mem_dropLast h hmem
      omega
    · have hmem : chunk ∈ (chunks bytes perLine).getLast? := by
        rw [hchunks, List.getLast?_concat, List.mem_singleton.1 hlast]
        rfl
      exact (length_of_mem_getLast? h hmem).1

/-! ## §4. Byte arrays. -/

theorem byteLines_eq (bytes : List UInt8) (perLine : Nat) :
    byteLines bytes perLine = (chunks bytes (max perLine 1)).map line := rfl

/-- The values of all lines in a row are the bytes, wherever the lines are cut. -/
theorem flatMap_values_byteLines (bytes : List UInt8) (perLine : Nat) :
    (byteLines bytes perLine).flatMap values = bytes.map byteWord := by
  rw [byteLines_eq, List.flatMap_map]
  simp only [values_line]
  rw [List.flatMap_def, ← List.map_flatten, flatten_chunks bytes _ (by omega)]

theorem mapM_octet? (bytes : List UInt8) : (bytes.map byteWord).mapM octet? = some bytes := by
  induction bytes with
  | nil => rfl
  | cons b rest ih => simp [octet?_byteWord, ih]

/-- The lines of a byte array are read back as its bytes.  There are as few of
them as can be with so many values on each; all but the last are full, and that
holds something.  No line is empty or has blanks at its ends, and the values in
a row are the same wherever the lines are cut. -/
theorem byteLines_exact (bytes : List UInt8) (perLine : Nat) :
    octets? (byteLines bytes perLine) = some bytes
      ∧ (byteLines bytes perLine).length = bytes.length ⌈/⌉ max perLine 1
      ∧ (∀ line ∈ (byteLines bytes perLine).dropLast, (values line).length = max perLine 1)
      ∧ (∀ line ∈ (byteLines bytes perLine).getLast?,
        1 ≤ (values line).length ∧ (values line).length ≤ max perLine 1)
      ∧ (∀ line ∈ byteLines bytes perLine, line ≠ "" ∧ trim line.toList = line.toList)
      ∧ ∀ other, (byteLines bytes perLine).flatMap values
        = (byteLines bytes other).flatMap values := by
  have hpos : 0 < max perLine 1 := by omega
  have hlength : ∀ chunk, (values (line chunk)).length = chunk.length := fun chunk => by
    rw [values_line, List.length_map]
  refine ⟨?_, ?_, fun l hl => ?_, fun l hl => ?_, fun l hl => ?_, fun other => ?_⟩
  · unfold octets?
    rw [flatMap_values_byteLines, mapM_octet?]
  · rw [byteLines_eq, List.length_map, chunks, List.length_map, List.length_range, lineCount_eq]
  · rw [byteLines_eq, ← List.map_dropLast] at hl
    obtain ⟨chunk, hchunk, rfl⟩ := List.mem_map.1 hl
    rw [hlength, length_of_mem_dropLast hpos hchunk]
  · rw [byteLines_eq, List.getLast?_map] at hl
    obtain ⟨chunk, hchunk, rfl⟩ := Option.map_eq_some_iff.1 hl
    rw [hlength]
    exact length_of_mem_getLast? hpos hchunk
  · obtain ⟨chunk, hchunk, rfl⟩ := List.mem_map.1 hl
    obtain ⟨b, rest, rfl⟩ := List.exists_cons_of_ne_nil (ne_nil_of_mem_chunks hpos hchunk)
    refine ⟨fun hempty => ?_, trim_line b rest⟩
    have htext := toList_line b rest
    rw [line, hempty] at htext
    cases htext
  · rw [flatMap_values_byteLines, flatMap_values_byteLines]

end AssetEmbed.Reading
