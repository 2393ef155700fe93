/-
  AssetEmbed.Proofs.MediaTypes — what the name of a file says of its type.

  Only the text after the last dot of a name counts, if the dot is not the first
  character, and capitals of ASCII count as small letters.  In UTF-8 the bytes of
  ASCII stand for themselves and no other character has one of them, so that
  small letters can be put into the bytes of a path as well as into its text; and
  neither a separator nor a dot is a letter.

  Main results:
    * `decode?_lowered`   — small letters in bytes and in text.
    * `says_ofPath`       — the type of a path is what its last name says.
    * `Says.eq`           — a name says one type only.
    * `ofPath_lowered`    — the type of a path is that of the path in small letters.
    * `mediaType_exact`   — types of paths, in an index and in generated files.
-/
import AssetEmbed.Proofs.Listing
import AssetEmbed.Proofs.RelativePath

namespace AssetEmbed

open MediaType

/-! ## §1. Small letters. -/

namespace Utf8

/-- A byte with the capitals of ASCII as small letters. -/
def lowerByte (b : UInt8) : UInt8 := if 65 ≤ b.toNat ∧ b.toNat ≤ 90 then b + 32 else b

/-- Bytes with the capitals of ASCII as small letters. -/
def lowered (bytes : List UInt8) : List UInt8 := bytes.map lowerByte

theorem toNat_lowerByte (b : UInt8) :
    (lowerByte b).toNat = if 65 ≤ b.toNat ∧ b.toNat ≤ 90 then b.toNat + 32 else b.toNat := by
  unfold lowerByte
  split
  · next h =>
    rw [UInt8.toNat_add]
    simp only [UInt8.reduceToNat]
    omega
  · rfl

/-- No byte but a small letter is made of another. -/
theorem lowerByte_eq_iff {b c : UInt8} (hc : c.toNat < 65 ∨ 128 ≤ c.toNat) :
    lowerByte b = c ↔ b = c := by
  rw [← UInt8.toNat_inj, ← UInt8.toNat_inj, toNat_lowerByte]
  split <;> omega

theorem lowerByte_of_ge {b : UInt8} (h : 128 ≤ b.toNat) : lowerByte b = b :=
  (lowerByte_eq_iff (.inr h)).2 rfl

theorem lowered_of_ge {bytes : List UInt8} (h : ∀ b ∈ bytes, 128 ≤ b.toNat) :
    lowered bytes = bytes :=
  (List.map_congr_left fun b hb => lowerByte_of_ge (h b hb)).trans (List.map_id bytes)

/-- Characters outside of ASCII are written without its bytes. -/
theorem le_of_mem_utf8EncodeChar {c : Char} (hc : 128 ≤ c.toNat) :
    ∀ b ∈ String.utf8EncodeChar c, 128 ≤ b.toNat := by
  have hvalue : c.val.toNat = c.toNat := rfl
  intro b hb
  unfold String.utf8EncodeChar at hb
  simp only [hvalue] at hb
  repeat' split at hb
  all_goals
    simp only [List.mem_cons, List.not_mem_nil, or_false] at hb
    rcases hb with rfl | rfl | rfl | rfl <;> simp only [UInt8.toNat_ofNat'] <;> omega

theorem toLower_of_ge {c : Char} (hc : 128 ≤ c.toNat) : c.toLower = c := by
  refine dif_neg fun hcapital => ?_
  have hle : c.toNat ≤ 90 := UInt32.le_iff_toNat_le.1 hcapital.2
  omega

/-- What holds of the characters of ASCII, one by one, holds of each of them. -/
theorem forall_ascii {P : Char → Prop} (h : ∀ n < 128, P (Char.ofNat n)) {c : Char}
    (hc : c.toNat < 128) : P c :=
  Char.ofNat_toNat c ▸ h c.toNat hc

theorem utf8EncodeChar_toLower (c : Char) :
    String.utf8EncodeChar c.toLower = lowered (String.utf8EncodeChar c) := by
  by_cases hc : c.toNat < 128
  · revert hc
    exact forall_ascii (P := fun c => String.utf8EncodeChar c.toLower
      = lowered (String.utf8EncodeChar c)) (by decide)
  · rw [Nat.not_lt] at hc
    rw [toLower_of_ge hc, lowered_of_ge (le_of_mem_utf8EncodeChar hc)]

theorem toLower_toLower (c : Char) : c.toLower.toLower = c.toLower := by
  by_cases hc : c.toNat < 128
  · revert hc
    exact forall_ascii (P := fun c => c.toLower.toLower = c.toLower) (by decide)
  · rw [Nat.not_lt] at hc
    rw [toLower_of_ge hc, toLower_of_ge hc]

theorem encode_asciiLower (text : String) : encode (asciiLower text) = lowered (encode text) := by
  rw [encode_eq_flatMap, encode_eq_flatMap, asciiLower, String.toList_ofList, List.flatMap_map,
    lowered, List.map_flatMap]
  exact List.flatMap_congr fun c _ => utf8EncodeChar_toLower c

theorem asciiLower_asciiLower (text : String) : asciiLower (asciiLower text) = asciiLower text := by
  unfold asciiLower
  rw [String.toList_ofList, List.map_map]
  exact congrArg String.ofList (List.map_congr_left fun c _ => toLower_toLower c)

theorem utf8EncodeChar_ofNat :
    ∀ n < 128, String.utf8EncodeChar (Char.ofNat n) = [UInt8.ofNat n] := by
  decide

/-- Bytes that are a character in small letters are a character. -/
theorem exists_char_of_lowered {bytes : List UInt8} {c : Char}
    (h : lowered bytes = String.utf8EncodeChar c) : ∃ d, bytes = String.utf8EncodeChar d := by
  by_cases hc : c.toNat < 128
  · -- one byte of ASCII, and it was one before
    rw [← Char.ofNat_toNat c, utf8EncodeChar_ofNat c.toNat hc] at h
    obtain ⟨b, rfl, hb⟩ := List.map_eq_singleton_iff.1 h
    have hvalue := congrArg UInt8.toNat hb
    rw [toNat_lowerByte, UInt8.toNat_ofNat'] at hvalue
    have hlt : b.toNat < 128 := by
      split at hvalue <;> omega
    exact ⟨Char.ofNat b.toNat, by rw [utf8EncodeChar_ofNat b.toNat hlt, UInt8.ofNat_toNat]⟩
  · -- no byte of ASCII, so that all are as they were
    refine ⟨c, h ▸ (lowered_of_ge fun b hb => ?_).symm⟩
    have hmem : lowerByte b ∈ String.utf8EncodeChar c := h ▸ List.mem_map_of_mem hb
    have hvalue := le_of_mem_utf8EncodeChar (Nat.not_lt.1 hc) _ hmem
    rw [toNat_lowerByte] at hvalue
    split at hvalue <;> omega

/-- Bytes that are a text in small letters are a text. -/
theorem exists_encode_of_lowered {cs : List Char} {bytes : List UInt8}
    (h : lowered bytes = cs.flatMap String.utf8EncodeChar) :
    ∃ ds : List Char, bytes = ds.flatMap String.utf8EncodeChar := by
  induction cs generalizing bytes with
  | nil => exact ⟨[], List.map_eq_nil_iff.1 h⟩
  | cons c rest ih =>
    obtain ⟨front, back, rfl, hfront, hback⟩ := List.map_eq_append_iff.1 h
    obtain ⟨ds, rfl⟩ := ih hback
    obtain ⟨d, rfl⟩ := exists_char_of_lowered hfront
    exact ⟨d :: ds, rfl⟩

/-- Bytes are a text just if they are with small letters, and it has small
letters then. -/
theorem decode?_lowered (bytes : List UInt8) :
    decode? (lowered bytes) = (decode? bytes).map asciiLower := by
  cases htext : decode? bytes with
  | some text =>
    rw [← encode_of_decode? htext, ← encode_asciiLower, decode?_encode]
    rfl
  | none =>
    rw [Option.map_none, Option.eq_none_iff_forall_ne_some]
    intro text hlower
    have hbytes := decode?_eq_some_iff.1 hlower
    rw [encode_eq_flatMap] at hbytes
    obtain ⟨ds, rfl⟩ := exists_encode_of_lowered hbytes
    have hdecoded := decode?_encode (String.ofList ds)
    rw [encode_eq_flatMap, String.toList_ofList, htext] at hdecoded
    cases hdecoded

end Utf8

/-! ## §2. What a name says. -/

namespace MediaType

/-- The types of files by the extension of their names. -/
def table : Keyed String :=
  [("html", "text/html"), ("css", "text/css"), ("js", "application/javascript"),
   ("json", "application/json"), ("png", "image/png"), ("jpg", "image/jpeg"),
   ("jpeg", "image/jpeg"), ("gif", "image/gif"), ("svg", "image/svg+xml"),
   ("ico", "image/x-icon")]

/-- What a name says of the type of a file: the text after its last dot does, if
there is one that is not the first character. -/
inductive Says (name : Name) : String → Prop where
  | extension {stem : Name} {text : String} (hname : name = stem ++ 0x2E :: Utf8.encode text)
      (hstem : stem ≠ []) (hlast : 0x2E ∉ Utf8.encode text) :
      Says name ((table.lookup (asciiLower text)).getD "application/octet-stream")
  | noText {stem ext : Name} (hname : name = stem ++ 0x2E :: ext) (hstem : stem ≠ [])
      (hlast : 0x2E ∉ ext) (htext : ¬ ext.IsText) : Says name "application/octet-stream"
  | noDot (h : 0x2E ∉ name.tail) : Says name "application/octet-stream"

variable {name stem ext : Name} {p : Path}

theorem decode?_eq_none_iff : Utf8.decode? name = none ↔ ¬ name.IsText := by
  rw [Option.eq_none_iff_forall_ne_some]
  exact ⟨fun h ⟨text, htext⟩ => h text (Utf8.decode?_eq_some_iff.2 htext.symm),
    fun h text htext => h ⟨text, Utf8.encode_of_decode? htext⟩⟩

theorem ofExtension_some (text : String) :
    ofExtension (some text) = (table.lookup text).getD "application/octet-stream" := by
  by_cases h : text ∈ table.map Prod.fst
  · simp only [table, List.map_cons, List.map_nil, List.mem_cons, List.not_mem_nil, or_false] at h
    rcases h with rfl | rfl | rfl | rfl | rfl | rfl | rfl | rfl | rfl | rfl <;> rfl
  · rw [Keyed.lookup_eq_none_iff.2 h]
    unfold ofExtension
    split
    -- an extension that has a type is in the table
    case h_11 => rfl
    all_goals
      next heq =>
        cases heq
        exact absurd (by decide) h

/-- The last dot of a name, if there is one that is not the first character. -/
theorem exists_dot_or (name : Name) :
    (∃ stem ext, name = stem ++ 0x2E :: ext ∧ stem ≠ [] ∧ 0x2E ∉ ext) ∨ 0x2E ∉ name.tail := by
  by_cases h : 0x2E ∈ name.tail
  · cases name with
    | nil => cases h
    | cons b rest =>
      -- the last dot is the first one from behind
      obtain ⟨back, front, hrest, hback⟩ := List.eq_append_cons_of_mem (List.mem_reverse.2 h)
      refine .inl ⟨b :: front.reverse, back.reverse, ?_, List.cons_ne_nil _ _,
        mt List.mem_reverse.1 hback⟩
      rw [← List.reverse_reverse rest]
      have := congrArg List.reverse hrest
      simpa using this
  · exact .inr h

theorem extension?_of_dot (hstem : stem ≠ []) (hlast : 0x2E ∉ ext) :
    extension? (stem ++ 0x2E :: ext) = some ext := by
  have hext : ∀ b ∈ ext.reverse, (b != 0x2E) = true := fun b hb => by
    simpa using fun heq : b = 0x2E => hlast (heq ▸ List.mem_reverse.1 hb)
  have hafter : ((stem ++ 0x2E :: ext).reverse.takeWhile (· != 0x2E)).reverse = ext := by
    rw [List.reverse_append, List.reverse_cons, List.append_assoc,
      List.takeWhile_append_of_pos hext]
    simp
  have hbefore : (stem ++ 0x2E :: ext).take ((stem ++ 0x2E :: ext).length - ext.length - 1)
      = stem := by
    have hlength : (stem ++ 0x2E :: ext).length - ext.length - 1 = stem.length := by
      rw [List.length_append, List.length_cons]
      omega
    rw [hlength, List.take_left]
  unfold extension?
  dsimp only
  rw [hafter, hbefore]
  refine if_pos ⟨?_, hstem⟩
  rw [List.length_append, List.length_cons]
  omega

theorem extension?_eq_none (h : 0x2E ∉ name.tail) : extension? name = none := by
  cases name with
  | nil => rfl
  | cons b rest =>
    -- all but the first character stand after the dot, if there is one
    have hrest : ∀ c ∈ rest.reverse, (c != 0x2E) = true := fun c hc => by
      simpa using fun heq : c = 0x2E => h (heq ▸ List.mem_reverse.1 hc)
    unfold extension?
    rw [List.reverse_cons, List.takeWhile_append_of_pos hrest]
    by_cases hb : b = 0x2E
    · simp [hb]
    · simp [hb]

/-- The type of a path depends on its last name only. -/
theorem ofPath_eq (h : p.fileName? = some name) :
    ofPath p = ofExtension (((extension? name).bind Utf8.decode?).map asciiLower) := by
  rw [ofPath, h, Option.bind_some]

theorem says_ofPath (h : p.fileName? = some name) : Says name (ofPath p) := by
  rw [ofPath_eq h]
  rcases exists_dot_or name with ⟨stem, ext, rfl, hstem, hlast⟩ | hdot
  · rw [extension?_of_dot hstem hlast, Option.bind_some]
    cases htext : Utf8.decode? ext with
    | none => exact .noText rfl hstem hlast (decode?_eq_none_iff.1 htext)
    | some text =>
      obtain rfl := Utf8.encode_of_decode? htext
      rw [Option.map_some, ofExtension_some]
      exact .extension rfl hstem hlast
  · rw [extension?_eq_none hdot]
    exact .noDot hdot

/-- A name says one type only. -/
theorem Says.eq {type : String} (h : Says name type) (hp : p.fileName? = some name) :
    ofPath p = type := by
  rw [ofPath_eq hp]
  cases h with
  | extension hname hstem hlast =>
    rw [hname, extension?_of_dot hstem hlast, Option.bind_some, Utf8.decode?_encode,
      Option.map_some, ofExtension_some]
  | noText hname hstem hlast htext =>
    rw [hname, extension?_of_dot hstem hlast, Option.bind_some, decode?_eq_none_iff.2 htext]
    rfl
  | noDot hdot =>
    rw [extension?_eq_none hdot]
    rfl

end MediaType

/-! ## §3. Paths. -/

open Utf8

namespace Path

variable {p : Path} {name : Name}

/-- Small letters in the bytes of a path. -/
def lowered (p : Path) : Path := ⟨Utf8.lowered p.bytes⟩

theorem lowered_eq_iff {bytes other : List UInt8}
    (h : ∀ c ∈ other, c.toNat < 65 ∨ 128 ≤ c.toNat) :
    Utf8.lowered bytes = other ↔ bytes = other := by
  induction other generalizing bytes with
  | nil => exact List.map_eq_nil_iff
  | cons c rest ih =>
    obtain ⟨hc, hrest⟩ := List.forall_mem_cons.1 h
    cases bytes with
    | nil => exact Iff.rfl
    | cons b bs =>
      have htail : bs.map lowerByte = rest ↔ bs = rest := ih hrest
      rw [Utf8.lowered, List.map_cons, List.cons.injEq, List.cons.injEq, lowerByte_eq_iff hc, htail]

theorem splitSlash_lowered (bytes : List UInt8) :
    splitSlash (Utf8.lowered bytes) = (splitSlash bytes).map Utf8.lowered := by
  induction bytes with
  | nil => rfl
  | cons b rest ih =>
    have hslash : lowerByte b = slash ↔ b = slash := lowerByte_eq_iff (.inl (by decide))
    rw [Utf8.lowered, List.map_cons, splitSlash, splitSlash]
    by_cases hb : b = slash
    · rw [if_pos hb, if_pos (hslash.2 hb), List.map_cons]
      exact congrArg ([] :: ·) ih
    · rw [if_neg hb, if_neg (mt hslash.1 hb)]
      obtain ⟨piece, pieces, hpieces⟩ := List.exists_cons_of_ne_nil (splitSlash_ne_nil rest)
      have hlowered : splitSlash (rest.map lowerByte) = _ := ih
      rw [hlowered, hpieces]
      rfl

/-- Small letters in the name of a component. -/
def Component.lowered : Component → Component
  | .normal name => .normal (Utf8.lowered name)
  | c => c

theorem lowered_eq_nil_iff {piece : Name} : Utf8.lowered piece = [] ↔ piece = [] :=
  List.map_eq_nil_iff

theorem lowered_eq_dot_iff {piece : Name} : Utf8.lowered piece = dot ↔ piece = dot :=
  lowered_eq_iff (List.forall_mem_singleton.2 (by decide))

theorem lowered_eq_dotDot_iff {piece : Name} : Utf8.lowered piece = dotDot ↔ piece = dotDot :=
  lowered_eq_iff (List.forall_mem_cons.2 ⟨by decide, List.forall_mem_singleton.2 (by decide)⟩)

theorem ofPiece_lowered (piece : Name) :
    Component.ofPiece (Utf8.lowered piece) = (Component.ofPiece piece).map Component.lowered := by
  unfold Component.ofPiece
  simp only [lowered_eq_nil_iff, lowered_eq_dot_iff, lowered_eq_dotDot_iff]
  split
  · rfl
  · split <;> rfl

theorem filterMap_ofPiece_lowered (pieces : List Name) :
    (pieces.map Utf8.lowered).filterMap Component.ofPiece
      = (pieces.filterMap Component.ofPiece).map Component.lowered := by
  rw [List.filterMap_map, List.map_filterMap]
  exact List.filterMap_congr fun piece _ => ofPiece_lowered piece

theorem isAbsolute_lowered (p : Path) : p.lowered.isAbsolute = p.isAbsolute := by
  unfold isAbsolute lowered Utf8.lowered
  cases p.bytes with
  | nil => rfl
  | cons b rest =>
    have hslash : lowerByte b = slash ↔ b = slash := lowerByte_eq_iff (.inl (by decide))
    rw [List.map_cons, List.head?_cons, List.head?_cons, Bool.eq_iff_iff, beq_iff_eq, beq_iff_eq,
      Option.some_inj, Option.some_inj, hslash]

/-- Neither separators nor dots are letters. -/
theorem components_lowered (p : Path) :
    p.lowered.components = p.components.map Component.lowered := by
  unfold components
  rw [isAbsolute_lowered]
  have hsplit : splitSlash p.lowered.bytes = _ := splitSlash_lowered p.bytes
  rw [hsplit]
  split
  · rw [filterMap_ofPiece_lowered]
    rfl
  · cases splitSlash p.bytes with
    | nil => rfl
    | cons piece pieces =>
      rw [List.map_cons]
      dsimp only
      simp only [lowered_eq_dot_iff, filterMap_ofPiece_lowered, ofPiece_lowered, List.map_append]
      congr 1
      split
      · rfl
      · cases Component.ofPiece piece <;> rfl

theorem fileName?_eq_some_iff :
    p.fileName? = some name ↔ p.components.getLast? = some (.normal name) := by
  unfold fileName?
  split
  · next last h => rw [h]; simp
  · next h => exact iff_of_false (by simp) (h name)

theorem fileName?_lowered (p : Path) : p.lowered.fileName? = p.fileName?.map Utf8.lowered := by
  unfold fileName?
  rw [components_lowered, List.getLast?_map]
  cases p.components.getLast? with
  | none => rfl
  | some c => cases c <;> rfl

theorem exists_piece_of_mem_components {c : Component} (hc : c ∈ p.components) :
    c = .root ∨ c = .current ∨ ∃ piece ∈ splitSlash p.bytes, Component.ofPiece piece = some c := by
  unfold components at hc
  split at hc
  · rcases List.mem_cons.1 hc with rfl | hc
    · exact .inl rfl
    · exact .inr (.inr (List.mem_filterMap.1 hc))
  · split at hc
    · cases hc
    · next piece pieces hsplit =>
      rw [hsplit]
      rcases List.mem_append.1 hc with hc | hc
      · split at hc
        · exact .inr (.inl (List.mem_singleton.1 hc))
        · exact .inr (.inr ⟨piece, List.mem_cons_self, Option.mem_toList.1 hc⟩)
      · obtain ⟨other, hother, hc⟩ := List.mem_filterMap.1 hc
        exact .inr (.inr ⟨other, List.mem_cons_of_mem _ hother, hc⟩)

/-- The last name of a path is one that stands for itself. -/
theorem walked_of_fileName? (h : p.fileName? = some name) : name.Walked := by
  have hmem := List.mem_of_getLast? (fileName?_eq_some_iff.1 h)
  obtain hroot | hcurrent | ⟨piece, hpiece, hc⟩ := exists_piece_of_mem_components hmem
  · cases hroot
  · cases hcurrent
  · have hslash := slash_notMem_of_mem_splitSlash hpiece
    unfold Component.ofPiece at hc
    split at hc
    · cases hc
    · next hidle =>
      obtain ⟨hne, hdot⟩ := not_or.1 hidle
      split at hc
      · cases hc
      · next hdotDot =>
        cases hc
        exact ⟨hne, hdot, hdotDot, hslash⟩

/-- A name alone is the last name of the path that it is. -/
theorem fileName?_of_walked (h : name.Walked) : fileName? ⟨name⟩ = some name := by
  have hjoin := components_join_names ⟨[]⟩ (List.cons_ne_nil name []) (by simpa using h)
  have hself : join ⟨[]⟩ ⟨joinSlash [name]⟩ = ⟨name⟩ := by
    unfold join
    split
    · rfl
    · exact if_pos (.inl rfl)
  rw [hself] at hjoin
  rw [fileName?_eq_some_iff, hjoin]
  rfl

end Path

namespace MediaType

theorem extension?_lowered (name : Name) :
    extension? (Utf8.lowered name) = (extension? name).map Utf8.lowered := by
  have hdot : ∀ {bytes : List UInt8}, 0x2E ∉ bytes → 0x2E ∉ Utf8.lowered bytes := by
    intro bytes h hmem
    obtain ⟨b, hb, heq⟩ := List.mem_map.1 hmem
    exact h ((lowerByte_eq_iff (.inl (by decide))).1 heq ▸ hb)
  rcases exists_dot_or name with ⟨stem, ext, rfl, hstem, hlast⟩ | htail
  · rw [extension?_of_dot hstem hlast, Utf8.lowered, List.map_append, List.map_cons]
    exact extension?_of_dot (mt List.map_eq_nil_iff.1 hstem) (hdot hlast)
  · rw [extension?_eq_none htail]
    refine extension?_eq_none ?_
    rw [Utf8.lowered, ← List.map_tail]
    exact hdot htail

/-- The type of a path is that of the path in small letters. -/
theorem ofPath_lowered (p : Path) : ofPath p.lowered = ofPath p := by
  unfold ofPath
  rw [Path.fileName?_lowered]
  cases p.fileName? with
  | none => rw [Option.map_none]
  | some name =>
    rw [Option.map_some, Option.bind_some, Option.bind_some, extension?_lowered]
    cases extension? name with
    | none => rw [Option.map_none]
    | some ext =>
      rw [Option.map_some, Option.bind_some, Option.bind_some, decode?_lowered, Option.map_map]
      refine congrArg ofExtension ?_
      cases Utf8.decode? ext with
      | none => rw [Option.map_none, Option.map_none]
      | some text => exact congrArg some (asciiLower_asciiLower text)

end MediaType

/-! ## §4. Types of assets. -/

variable {b : Bundle} {s : Settings} {a : Asset}

/-- The text constants of a bundle are those of its assets, however they are
divided among files. -/
theorem exists_text_units_iff {name value : String} :
    (∃ u ∈ units b s, .text name value ∈ u.declarations)
      ↔ ∃ a ∈ b.assets, .text name value ∈ Declaration.ofAsset a := by
  unfold units indexUnit indexContent
  cases s.mode with
  | combined => simp
  | split => simp [assetUnit]

theorem text_mem_ofAsset_iff {name value : String} : .text name value ∈ Declaration.ofAsset a
    ↔ (name = a.pathIdent ∧ value = a.path) ∨ (name = a.mimeIdent ∧ value = a.mime) := by
  simp [Declaration.ofAsset]

/-- The type constant of an asset is declared by that asset only, and as its type. -/
theorem eq_mime_of_text {c : Asset} {value : String} (ha : a ∈ b.assets) (hc : c ∈ b.assets)
    (h : .text a.mimeIdent value ∈ Declaration.ofAsset c) : value = a.mime := by
  have hident : a.mimeIdent ∈ a.idents := by simp [Asset.idents]
  rcases text_mem_ofAsset_iff.1 h with ⟨hname, -⟩ | ⟨hname, rfl⟩
  · -- it would be the path constant of the same asset
    have hpath : a.mimeIdent ∈ c.idents := by simp [Asset.idents, hname]
    obtain rfl := eq_of_mem_idents b.idents_nodup ha hc hident hpath
    have hnodup := a.nodup_idents
    simp [Asset.idents, hname] at hnodup
  · have hmime : a.mimeIdent ∈ c.idents := by simp [Asset.idents, hname]
    rw [eq_of_mem_idents b.idents_nodup ha hc hident hmime]

theorem mimeType_ofBundle (ha : a ∈ b.assets) :
    (AssetIndex.ofBundle b).mimeType a.path = a.mime := by
  rw [AssetIndex.mimeType, AssetIndex.byPath_ofBundle, AssetIndex.lookup_map_path,
    Row.find?_path ha]
  rfl

/-- The type of a path is that of its last name alone, and this says it by its
last dot.  Paths that differ only in the case of letters of ASCII have one type.
The type of an asset is that of its path, and so are the type that the index of a
bundle gives for this path and the value of the type constant in the files of
every plan. -/
theorem mediaType_exact :
    (∀ (p : Path) name, p.components.getLast? = some (.normal name) →
      ofPath p = ofPath ⟨name⟩ ∧ ∀ type, ofPath p = type ↔ Says name type)
    ∧ (∀ p q : Path, Utf8.lowered p.bytes = Utf8.lowered q.bytes → ofPath p = ofPath q)
    ∧ ∀ (b : Bundle) a, a ∈ b.assets →
      a.mime = ofPath (.ofString a.path)
        ∧ (AssetIndex.ofBundle b).mimeType a.path = a.mime
        ∧ ∀ s us, plan b s = .ok us →
          (∃ u ∈ us, .text a.mimeIdent a.mime ∈ u.declarations)
            ∧ ∀ u ∈ us, ∀ value, .text a.mimeIdent value ∈ u.declarations → value = a.mime := by
  refine ⟨fun p name hlast => ?_, fun p q hlowered => ?_,
    fun b a ha => ⟨rfl, mimeType_ofBundle ha, fun s us hplan => ?_⟩⟩
  · have hname := Path.fileName?_eq_some_iff.2 hlast
    have hself := Path.fileName?_of_walked (Path.walked_of_fileName? hname)
    refine ⟨(ofPath_eq hname).trans (ofPath_eq hself).symm, fun type => ⟨fun h => ?_, fun h => ?_⟩⟩
    · exact h ▸ says_ofPath hname
    · exact h.eq hname
  · rw [← ofPath_lowered p, ← ofPath_lowered q]
    exact congrArg ofPath (congrArg Path.mk hlowered)
  · obtain ⟨rfl, -⟩ := accepted_of_plan hplan
    refine ⟨exists_text_units_iff.2 ⟨a, ha, text_mem_ofAsset_iff.2 (.inr ⟨rfl, rfl⟩)⟩,
      fun u hu value hvalue => ?_⟩
    obtain ⟨c, hc, htext⟩ := exists_text_units_iff.1 ⟨u, hu, hvalue⟩
    exact eq_mime_of_text ha hc htext

/-- Dots in front of the last one and in directories do not count, nor does one at
the front; what is no text says nothing; capitals of ASCII count as small letters,
beside letters that stay as they are; and a script has one type in the index and in
its file. -/
theorem mediaType_exact_dotted :
    ofPath (.ofString "v1.2/a.tar.JpEg") = "image/jpeg"
      ∧ ofPath (.ofString "site.d/.html") = "application/octet-stream"
      ∧ ofPath ⟨Utf8.encode "a." ++ [0xFF]⟩ = "application/octet-stream"
      ∧ ofPath (.ofString "\u212A/A.HTML") = ofPath (.ofString "\u212A/a.html")
      ∧ ∃ a ∈ scriptAndPage.assets, (AssetIndex.ofBundle scriptAndPage).mimeType a.path = a.mime
        ∧ ∃ us, plan scriptAndPage .default = .ok us
          ∧ ∃ u ∈ us, .text a.mimeIdent a.mime ∈ u.declarations := by
  obtain ⟨hnames, hcase, hassets⟩ := mediaType_exact
  have hdots : Utf8.encode "a.tar.JpEg" = Utf8.encode "a.tar" ++ 0x2E :: Utf8.encode "JpEg" := rfl
  have hbroken : ¬ Name.IsText [0xFF] := decode?_eq_none_iff.1 rfl
  have hdot : Utf8.encode "a." ++ [0xFF] = [0x61] ++ 0x2E :: [0xFF] := rfl
  refine ⟨?_, ?_, ?_, hcase _ _ (by decide), _, List.mem_cons_self, ?_⟩
  · exact ((hnames _ (Utf8.encode "a.tar.JpEg") (by decide)).2 _).2
      (.extension hdots (by decide) (by decide))
  · exact ((hnames _ (Utf8.encode ".html") (by decide)).2 _).2 (.noDot (by decide))
  · exact ((hnames _ (Utf8.encode "a." ++ [0xFF]) (by decide)).2 _).2
      (.noText hdot (by decide) (by decide) hbroken)
  · obtain ⟨-, hindex, hplans⟩ := hassets scriptAndPage _ List.mem_cons_self
    exact ⟨hindex, _, rfl, (hplans .default _ rfl).1⟩

end AssetEmbed
