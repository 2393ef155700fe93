/-
  AssetEmbed.Proofs.Reading.Line — lines made of pieces.

  Every line of a generated file that is not a comment is a row of pieces:
  fixed text, words, and texts as literals.  Where the pieces do not run into
  each other, the line reads as the tokens of its pieces.

  Main results:
    * `reads_pieces`    — a line of sound pieces reads as their tokens.
    * `reads_byteLines` — the lines of a byte array read as its bytes in order.
-/
import AssetEmbed.Proofs.Reading.Literal
import AssetEmbed.Proofs.Reading.Sheet

namespace AssetEmbed.Reading

open Layout

/-! ## §1. Fixed lines. -/

/-- Whether characters are a line of whole tokens without a comment. -/
def isLine (cs : List Char) : Bool :=
  !cs.contains '\n' && cs.getLast? != some '\\'
    && transduce uncomment .code cs == (.code, cs)
    && (transduce tokenize .nothing (cs ++ ['\n'])).1 == .nothing

/-- A fixed line, which is given by its characters. -/
theorem reads_fixed {target : Target} {cs : List Char} (h : isLine cs = true) :
    Reads target [.line (String.ofList cs)] (phrase (String.ofList cs)) := by
  simp only [isLine, Bool.and_eq_true, Bool.not_eq_true', List.contains_eq_mem,
    decide_eq_false_iff_not, bne_iff_ne, beq_iff_eq] at h
  obtain ⟨⟨⟨hbreak, hends⟩, hcode⟩, htokens⟩ := h
  refine .line ?_ (.line ?_)
  · rw [String.toList_ofList]
    exact ⟨hbreak, hends, hcode⟩
  · rw [String.toList_ofList]
    exact htokens

/-- Whether characters are a comment of one line. -/
def isComment : List Char → Bool
  | '/' :: '/' :: comment => !comment.contains '\n' && comment.getLast? != some '\\'
  | _ => false

theorem reads_comment {target : Target} {cs : List Char} (h : isComment cs = true) :
    Reads target [.line (String.ofList cs)] [] := by
  unfold isComment at h
  split at h
  · next comment =>
    simp only [Bool.and_eq_true, Bool.not_eq_true', List.contains_eq_mem,
      decide_eq_false_iff_not, bne_iff_ne] at h
    exact .comment String.toList_ofList (oneLine_of_notMem h.1 fun _ => h.2)
  · cases h

/-! ## §2. Pieces. -/

/-- A piece of a line. -/
inductive Piece where
  | fixed (text : String)
  | word (text : String)
  /-- A text as a literal of the target. -/
  | literal (text : String)
deriving DecidableEq, Repr

namespace Piece

def text (target : Target) : Piece → String
  | fixed text => text
  | word text => text
  | literal text => quote target text

def tokens (target : Target) : Piece → List Token
  | fixed text => phrase text
  | word text => [.word text.toList]
  | literal text => [quoted target text]

/-- Whether fixed characters are whole tokens only, and no literals. -/
def isFixed (cs : List Char) : Bool :=
  cs.all isPlain && (transduce tokenize .nothing cs).1 == .nothing

theorem isFixed_ofList {cs : List Char} (h : isFixed cs = true) :
    isFixed (String.ofList cs).toList = true := by
  rwa [String.toList_ofList]

/-- A word in front of fixed characters that end it. -/
theorem isFixed_word {cs : List Char} (h : IsWord cs) {c : Char} {rest : List Char}
    (hc : Identifier.isPart c = false) (hr : isFixed (c :: rest) = true) :
    isFixed (cs ++ c :: rest) = true := by
  simp only [isFixed, Bool.and_eq_true, beq_iff_eq] at hr ⊢
  have hspells : Spells (c :: rest) (transduce tokenize .nothing (c :: rest)).2 :=
    Prod.ext hr.2 rfl
  refine ⟨?_, congrArg Prod.fst (Spells.word h hc hspells)⟩
  rw [List.all_append, h.all_isPlain, hr.1]
  rfl

/-- Whether what comes next ends a word. -/
def endsWord : List Piece → Bool
  | [] => true
  | fixed text :: _ => text.toList.head?.any fun c => !Identifier.isPart c
  | word _ :: _ => false
  | literal _ :: _ => true

/-- Whether pieces stay apart from each other. -/
def Sound : List Piece → Prop
  | [] => True
  | fixed text :: rest => isFixed text.toList = true ∧ Sound rest
  | word text :: rest => IsWord text.toList ∧ endsWord rest = true ∧ Sound rest
  | literal _ :: rest => Sound rest

/-- The characters of pieces in a row. -/
def row (target : Target) (pieces : List Piece) : List Char :=
  pieces.flatMap fun piece => (piece.text target).toList

variable {target : Target}

theorem kept_row {pieces : List Piece} (h : Sound pieces) : Kept (row target pieces) := by
  induction pieces with
  | nil => exact .nil
  | cons piece rest ih =>
    cases piece with
    | fixed text =>
      -- a fixed text holds no quotes and no slashes
      have hplain : text.toList.all isPlain = true := (Bool.and_eq_true_iff.1 h.1).1
      exact (Kept.of_plain hplain).append (ih h.2)
    | word text => exact h.1.kept.append (ih h.2.2)
    | literal text => exact (kept_quote target text).append (ih h)

/-- After pieces that end a word, with the line feed, no part of a word stands. -/
theorem exists_cons_of_endsWord {pieces : List Piece} (h : endsWord pieces = true) :
    ∃ c cs, row target pieces ++ ['\n'] = c :: cs ∧ Identifier.isPart c = false := by
  match pieces with
  | [] => exact ⟨'\n', [], rfl, by decide⟩
  | fixed text :: rest =>
    simp only [endsWord] at h
    unfold row
    -- a fixed text with nothing in it would not end a word
    cases ht : text.toList with
    | nil => simp [ht] at h
    | cons c cs =>
      refine ⟨c, cs ++ row target rest ++ ['\n'], ?_, by simpa [ht] using h⟩
      simp only [List.flatMap_cons, Piece.text, ht]
      rfl
  | literal text :: rest =>
    refine ⟨'"', (text.toList.flatMap (escapeChar target) ++ ['"']) ++ row target rest ++ ['\n'],
      ?_, by decide⟩
    unfold row
    simp only [List.flatMap_cons, Piece.text, toList_quote]
    rfl

theorem spells_row {pieces : List Piece} (h : Sound pieces) :
    Spells (row target pieces ++ ['\n']) (pieces.flatMap (tokens target)) := by
  induction pieces with
  | nil => rfl
  | cons piece rest ih =>
    -- the line feed stays with the last piece
    have hrow : row target (piece :: rest) ++ ['\n']
        = (piece.text target).toList ++ (row target rest ++ ['\n']) := by
      unfold row
      rw [List.flatMap_cons, List.append_assoc]
    rw [hrow, List.flatMap_cons]
    cases piece with
    | fixed text =>
      have hends : (transduce tokenize .nothing text.toList).1 = .nothing :=
        beq_iff_eq.1 (Bool.and_eq_true_iff.1 h.1).2
      exact (Spells.fixed hends).append (ih h.2)
    | word text =>
      -- a word is a token only because of the character after it
      obtain ⟨c, cs, hnext, hc⟩ := @exists_cons_of_endsWord target _ h.2.1
      have hlater := ih h.2.2
      rw [hnext] at hlater ⊢
      exact .word h.1 hc hlater
    | literal text => exact (spells_quote target text).append (ih h)

end Piece

/-- A line of sound pieces reads as their tokens. -/
theorem reads_pieces {target : Target} {text : String} {pieces : List Piece}
    (htext : text.toList = Piece.row target pieces) (h : Piece.Sound pieces) :
    Reads target [.line text] (pieces.flatMap (Piece.tokens target)) :=
  .line (htext ▸ Piece.kept_row h) (htext ▸ Piece.spells_row h)

/-- The phrase of a line of sound pieces. -/
theorem phrase_row {target : Target} {text : String} {pieces : List Piece}
    (htext : text.toList = Piece.row target pieces) (h : Piece.Sound pieces) :
    phrase text = pieces.flatMap (Piece.tokens target) := by
  have hspells : Spells (text.toList ++ ['\n']) (pieces.flatMap (Piece.tokens target)) :=
    htext ▸ Piece.spells_row h
  exact hspells.eq_phrase.symm

/-- A line of sound pieces reads as its phrase. -/
theorem reads_row {target : Target} {text : String} {pieces : List Piece}
    (htext : text.toList = Piece.row target pieces) (h : Piece.Sound pieces) :
    Reads target [.line text] (phrase text) := by
  rw [phrase_row htext h]
  exact reads_pieces htext h

/-- A name between two fixed texts. -/
theorem reads_named {target : Target} {name : String} (front back : String)
    (hf : Piece.isFixed front.toList = true) (hn : IsWord name.toList)
    (hb : Piece.isFixed back.toList = true) (he : Piece.endsWord [.fixed back] = true) :
    Reads target [.line (front ++ name ++ back)]
      (phrase front ++ ([.word name.toList] ++ phrase back)) := by
  have htext : (front ++ name ++ back).toList
      = Piece.row target [.fixed front, .word name, .fixed back] := by
    simp only [String.toList_append, List.append_assoc, Piece.row, List.flatMap_cons,
      List.flatMap_nil, Piece.text, List.append_nil]
  have hall := reads_pieces htext ⟨hf, hn, he, hb, trivial⟩
  simpa only [List.flatMap_cons, List.flatMap_nil, Piece.tokens, List.append_nil] using hall

/-! ## §3. Lines of bytes. -/

/-- The tokens of a byte with the comma after it. -/
def byteTokens (b : UInt8) : List Token := .word (byteWord b) :: phrase ","

/-- A line of bytes as pieces. -/
def bytePieces : List UInt8 → List Piece
  | [] => []
  | [b] => [.word (String.ofList (byteWord b)), .fixed ","]
  | b :: rest => .word (String.ofList (byteWord b)) :: .fixed ", " :: bytePieces rest

theorem toList_literal (b : UInt8) :
    (ByteLiteral.literal b).toList = byteWord b ++ ",".toList := by
  unfold ByteLiteral.literal byteWord
  rw [String.toList_ofList]
  rfl

theorem toList_intercalate_literal (target : Target) (bytes : List UInt8) :
    (String.intercalate " " (bytes.map ByteLiteral.literal)).toList
      = Piece.row target (bytePieces bytes) := by
  fun_induction bytePieces bytes with
  | case1 => rfl
  | case2 b =>
    simp only [List.map_cons, List.map_nil, String.intercalate_singleton, toList_literal, Piece.row,
      List.flatMap_cons, List.flatMap_nil, Piece.text, String.toList_ofList, List.append_nil]
  | case3 b rest hne ih =>
    -- the blank after a byte belongs to the text between two of them
    cases rest with
    | nil => exact absurd rfl hne
    | cons c rest =>
      have hrow : Piece.row target
          (.word (String.ofList (byteWord b)) :: .fixed ", " :: bytePieces (c :: rest))
          = byteWord b ++ (", ".toList ++ Piece.row target (bytePieces (c :: rest))) := by
        simp only [Piece.row, List.flatMap_cons, Piece.text, String.toList_ofList]
      rw [hrow, ← ih, List.map_cons, List.map_cons, String.intercalate_cons_cons,
        String.toList_append, String.toList_append, toList_literal, List.append_assoc,
        List.append_assoc]
      rfl

theorem sound_bytePieces (bytes : List UInt8) : Piece.Sound (bytePieces bytes) := by
  have hword : ∀ b, IsWord (String.ofList (byteWord b)).toList := by
    intro b
    rw [String.toList_ofList]
    exact isWord_byteWord b
  fun_induction bytePieces bytes with
  | case1 => trivial
  | case2 b => exact ⟨hword b, by decide, by decide, trivial⟩
  | case3 b rest hne ih => exact ⟨hword b, rfl, by decide, ih⟩

theorem tokens_bytePieces (target : Target) (bytes : List UInt8) :
    (bytePieces bytes).flatMap (Piece.tokens target) = bytes.flatMap byteTokens := by
  -- the blank after a comma is no token
  have hcomma : phrase ", " = phrase "," := by decide
  fun_induction bytePieces bytes with
  | case1 => rfl
  | case2 b =>
    simp only [List.flatMap_cons, List.flatMap_nil, Piece.tokens, String.toList_ofList, byteTokens,
      List.append_nil, List.singleton_append]
  | case3 b rest hne ih =>
    simp only [List.flatMap_cons, ih, Piece.tokens, String.toList_ofList, byteTokens, hcomma,
      List.nil_append, List.cons_append]

theorem flatten_chunks (bytes : List UInt8) (perLine : Nat) (h : 0 < perLine) :
    (ByteLiteral.chunks bytes perLine).flatten = bytes := by
  -- the first `n` lines hold the first `n * perLine` bytes
  have hlines : ∀ n, ((List.range n).map fun i =>
      (bytes.toArray.extract (i * perLine) (i * perLine + perLine)).toList).flatten
        = bytes.take (n * perLine) := by
    intro n
    induction n with
    | zero => simp
    | succ n ih =>
      rw [List.range_succ, List.map_append, List.flatten_append, ih, Nat.succ_mul, List.take_add]
      simp
  -- there are lines enough for all bytes, since their number is rounded up
  have hcover : bytes.length ≤ ByteLiteral.lineCount bytes.length perLine * perLine := by
    have hsplit := Nat.div_add_mod (bytes.length + perLine - 1) perLine
    have hrest := Nat.mod_lt (bytes.length + perLine - 1) h
    unfold ByteLiteral.lineCount
    rw [Nat.mul_comm] at hsplit
    omega
  exact (hlines _).trans (List.take_of_length_le hcover)

/-- The lines of a byte array read as its bytes in order. -/
theorem reads_byteLines (target : Target) (bytes : List UInt8) (perLine : Nat) :
    Reads target ((ByteLiteral.byteLines bytes perLine).map .line) (bytes.flatMap byteTokens) := by
  have heach : ∀ chunk ∈ ByteLiteral.chunks bytes (max perLine 1),
      Reads target [.line (String.intercalate " " (chunk.map ByteLiteral.literal))]
        (chunk.flatMap byteTokens) := by
    intro chunk _
    rw [← tokens_bytePieces target]
    exact reads_pieces (toList_intercalate_literal target chunk) (sound_bytePieces chunk)
  -- where the lines are cut does not matter
  have hbytes : (ByteLiteral.chunks bytes (max perLine 1)).flatMap
      (fun chunk => chunk.flatMap byteTokens) = bytes.flatMap byteTokens := by
    rw [← flatten_chunks bytes (max perLine 1) (by omega), ← List.flatMap_id, List.flatMap_assoc,
      List.flatMap_id, flatten_chunks bytes _ (by omega)]
    rfl
  unfold ByteLiteral.byteLines
  rw [List.map_map, ← hbytes]
  exact Reads.map heach

end AssetEmbed.Reading
