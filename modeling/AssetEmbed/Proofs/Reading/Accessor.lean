/-
  AssetEmbed.Proofs.Reading.Accessor — reading the accessors.

  In either target a map function opens, says one thing, inserts row by row,
  says one more thing and closes; only the fixed texts differ.  The three maps
  have to agree on their keys and symbols, and the look-ups are fixed lines.

  Main results:
    * `reads_mapFunction`  — a map function reads as the tokens of its shape.
    * `accepts_accessors`  — and these tokens give its entries back.
-/
import AssetEmbed.Proofs.Reading.Line
import AssetEmbed.Proofs.Reading.Outline
import AssetEmbed.Proofs.Reading.Reader

namespace AssetEmbed.Reading

open Layout

/-! ## §1. Map functions. -/

/-- The fixed texts of a map function. -/
structure MapShape where
  opening : String
  /-- The line before the rows. -/
  first : String
  /-- What stands in front of the key of a row. -/
  front : String
  /-- What stands between the key and the name of a row. -/
  middle : String
  /-- What stands after the name of a row. -/
  back : String
  /-- The line after the rows. -/
  last : String
deriving DecidableEq, Repr

namespace MapShape

/-- Whether the texts keep the parts of a map function apart. -/
structure Sound (target : Target) (shape : MapShape) : Prop where
  opening : Reads target [.line shape.opening] (phrase shape.opening)
  first : Reads target [.line shape.first] (phrase shape.first)
  front : Piece.isFixed shape.front.toList = true
  middle : Piece.isFixed shape.middle.toList = true
  back : Piece.isFixed shape.back.toList = true
  ends : Piece.endsWord [.fixed shape.back] = true
  last : Reads target [.line shape.last] (phrase shape.last)
  /-- No row begins like the line after the rows. -/
  stops : clash (phrase shape.front) (phrase shape.last ++ phrase "\x7d") = true

/-- Reads a row: its key and its name. -/
def row (target : Target) (shape : MapShape) : Reader (String × String) := do
  expect shape.front
  let key ← textOf target
  expect shape.middle
  let ident ← name
  expect shape.back
  return (key, ident)

/-- Reads a map function: its rows. -/
def function (target : Target) (shape : MapShape) : Reader (List (String × String)) := do
  expect shape.opening
  expect shape.first
  let rows ← many (shape.row target)
  expect shape.last
  expect "\x7d"
  return rows

/-- The pieces of a row. -/
def pieces (shape : MapShape) (key ident : String) : List Piece :=
  [.fixed shape.front, .literal key, .fixed shape.middle, .word ident, .fixed shape.back]

def rowTokens (target : Target) (shape : MapShape) (key ident : String) : List Token :=
  (shape.pieces key ident).flatMap (Piece.tokens target)

/-- The tokens of a map function over entries. -/
def tokens (target : Target) (shape : MapShape) (ident : IndexEntry → String)
    (entries : List IndexEntry) : List Token :=
  phrase shape.opening
    ++ (phrase shape.first ++ (entries.flatMap (fun e => shape.rowTokens target e.path (ident e))
      ++ phrase shape.last))
    ++ phrase "\x7d"

end MapShape

variable {target : Target} {shape : MapShape} {entries : List IndexEntry}

/-- A map function reads as the tokens of its shape. -/
theorem reads_mapFunction (hs : shape.Sound target) {heading : List Char}
    (hh : isComment heading = true) {rowText ident : IndexEntry → String}
    (hrow : ∀ e, (rowText e).toList = Piece.row target (shape.pieces e.path (ident e)))
    (hi : ∀ e ∈ entries, IsWord (ident e).toList) :
    Reads target
      [.line (String.ofList heading), .line shape.opening,
       .nested (.line shape.first :: entries.map (fun e => .line (rowText e))
         ++ [.line shape.last]), .line "\x7d"]
      (shape.tokens target ident entries) := by
  -- the rows are lines of pieces; the other lines are fixed
  have hrows : Reads target (entries.map fun e => .line (rowText e))
      (entries.flatMap fun e => shape.rowTokens target e.path (ident e)) :=
    .map fun e he =>
      reads_pieces (hrow e) ⟨hs.front, hs.middle, hi e he, hs.ends, hs.back, trivial⟩
  have hbody := hs.first.cons (hrows.append hs.last)
  have hclose : Reads target [.line "\x7d"] (phrase "\x7d") := reads_fixed rfl
  exact (reads_comment hh).skip ((hs.opening.cons hbody.nested).append hclose)

theorem accepts_row (target : Target) (shape : MapShape) (key ident : String) :
    Accepts (shape.row target) (shape.rowTokens target key ident) (key, ident) := by
  have htokens : shape.rowTokens target key ident
      = phrase shape.front ++ ([quoted target key] ++ (phrase shape.middle
        ++ ([.word ident.toList] ++ phrase shape.back))) := by
    simp only [MapShape.rowTokens, MapShape.pieces, List.flatMap_cons, List.flatMap_nil,
      Piece.tokens, List.append_nil]
  rw [htokens]
  exact (Accepts.expect _).bind <| (accepts_textOf target key).bind <| (Accepts.expect _).bind <|
    (accepts_name ident).bind <| (Accepts.expect _).returning _

/-- The tokens of a map function give its rows back. -/
theorem accepts_mapFunction (hs : shape.Sound target) (ident : IndexEntry → String)
    (entries : List IndexEntry) :
    Accepts (shape.function target) (shape.tokens target ident entries)
      (entries.map fun e => (e.path, ident e)) := by
  have hstop : Refuses (shape.row target) (phrase shape.last ++ phrase "\x7d") :=
    (Refuses.expect hs.stops).bind _
  have hne : ∀ e ∈ entries, shape.rowTokens target e.path (ident e) ≠ [] := by
    intro e _ hnil
    simp [MapShape.rowTokens, MapShape.pieces, Piece.tokens] at hnil
  -- the reader takes the parts from the front, so they are grouped to the right
  have htokens : shape.tokens target ident entries
      = phrase shape.opening ++ (phrase shape.first
        ++ (entries.flatMap (fun e => shape.rowTokens target e.path (ident e))
          ++ (phrase shape.last ++ phrase "\x7d"))) := by
    simp only [MapShape.tokens, List.append_assoc]
  rw [htokens]
  exact (Accepts.expect _).bind <| (Accepts.expect _).bind <|
    .many_bind (fun e _ => accepts_row target shape e.path (ident e)) hne hstop <|
    (Accepts.expect _).bind <| (Accepts.expect _).returning _

/-! ## §2. All accessors. -/

/-- The fixed texts of the accessors. -/
structure AccessorShape where
  files : MapShape
  paths : MapShape
  mimeTypes : MapShape
  /-- The lines of the look-up functions. -/
  lookups : List String
deriving DecidableEq, Repr

/-- Whether the texts keep the parts of all accessors apart. -/
structure AccessorShape.Sound (target : Target) (shape : AccessorShape) : Prop where
  files : shape.files.Sound target
  paths : shape.paths.Sound target
  mimeTypes : shape.mimeTypes.Sound target

/-- Reads lines one after the other. -/
def expectLines : List String → Reader Unit
  | [] => pure ()
  | text :: rest => do
    expect text
    expectLines rest

/-- Whether the maps name the constants of the same symbols under the same keys. -/
def agree (files paths mimeTypes : List (String × String)) : Bool :=
  paths == files.map (fun row => (row.1, row.2 ++ "_path"))
    && mimeTypes == files.map (fun row => (row.1, row.2 ++ "_mime"))

/-- Reads the accessors: their entries. -/
def AccessorShape.block (target : Target) (shape : AccessorShape) : Reader (List IndexEntry) := do
  let files ← shape.files.function target
  let paths ← shape.paths.function target
  let mimeTypes ← shape.mimeTypes.function target
  expectLines shape.lookups
  if agree files paths mimeTypes then
    return files.map fun row => ⟨row.1, row.2⟩
  else failure

/-- The tokens of the accessors over entries. -/
def AccessorShape.tokens (target : Target) (shape : AccessorShape) (entries : List IndexEntry) :
    List Token :=
  shape.files.tokens target IndexEntry.symbol entries
    ++ shape.paths.tokens target (fun e => e.symbol ++ Asset.pathSuffix) entries
    ++ shape.mimeTypes.tokens target (fun e => e.symbol ++ Asset.mimeSuffix) entries
    ++ shape.lookups.flatMap phrase

theorem accepts_expectLines (lines : List String) :
    Accepts (expectLines lines) (lines.flatMap phrase) () := by
  induction lines with
  | nil => exact .pure ()
  | cons text rest ih => exact (Accepts.expect text).bind ih

/-- The tokens of the accessors give their entries back. -/
theorem accepts_accessors {shape : AccessorShape} (hs : shape.Sound target)
    (entries : List IndexEntry) :
    Accepts (shape.block target) (shape.tokens target entries) entries := by
  -- all three maps come from the same entries
  have hagree : agree (entries.map fun e => (e.path, e.symbol))
      (entries.map fun e => (e.path, e.symbol ++ Asset.pathSuffix))
      (entries.map fun e => (e.path, e.symbol ++ Asset.mimeSuffix)) = true := by
    simp only [agree, List.map_map, Bool.and_eq_true, beq_iff_eq]
    exact ⟨rfl, rfl⟩
  -- the first map alone gives the entries back
  have hentries : (entries.map fun e => (e.path, e.symbol)).map
      (fun row => (⟨row.1, row.2⟩ : IndexEntry)) = entries := by
    rw [List.map_map]
    exact List.map_id entries
  have htokens : shape.tokens target entries
      = shape.files.tokens target IndexEntry.symbol entries
        ++ (shape.paths.tokens target (fun e => e.symbol ++ Asset.pathSuffix) entries
          ++ (shape.mimeTypes.tokens target (fun e => e.symbol ++ Asset.mimeSuffix) entries
            ++ shape.lookups.flatMap phrase)) := by
    simp only [AccessorShape.tokens, List.append_assoc]
  rw [htokens]
  refine (accepts_mapFunction hs.files _ entries).bind <|
    (accepts_mapFunction hs.paths _ entries).bind <|
    (accepts_mapFunction hs.mimeTypes _ entries).bind ?_
  rw [if_pos hagree, hentries]
  exact (accepts_expectLines shape.lookups).returning _

/-- A reader that refuses the first accessor and what comes after the last one
refuses both, whether there are accessors or not. -/
theorem Refuses.accessors {α : Type} {r : Reader α} {shape : AccessorShape}
    (ha : Refuses r (phrase shape.files.opening)) {us : List Token} (hu : Refuses r us)
    (entries : Option (List IndexEntry)) :
    Refuses r (entries.elim [] (shape.tokens target) ++ us) := by
  cases entries with
  | none => exact hu
  | some entries =>
    -- the accessors begin with the opening of their first map
    have htokens : ∃ more, shape.tokens target entries = phrase shape.files.opening ++ more := by
      simp only [AccessorShape.tokens, MapShape.tokens, List.append_assoc]
      exact ⟨_, rfl⟩
    obtain ⟨more, hmore⟩ := htokens
    show Refuses r (shape.tokens target entries ++ us)
    rw [hmore]
    exact (ha.append more).append us

/-- What refuses the first accessor, a closed scope and the end refuses
whatever comes after the constants. -/
theorem Refuses.rest {α : Type} {r : Reader α} (target : Target) (shape : AccessorShape)
    (ha : Refuses r (phrase shape.files.opening)) (hc : Refuses r (phrase "\x7d"))
    (hf : Refuses r [.finish]) (entries : Option (List IndexEntry)) (scope : List String) :
    Refuses r (entries.elim [] (shape.tokens target)
      ++ ((scope.flatMap fun _ => phrase "\x7d") ++ [.finish])) :=
  .accessors ha (.flatMap_append (fun _ _ => hc) hf) entries

/-- As many scopes as were opened are closed, and then the text ends. -/
theorem accepts_close {α : Type} (scope : List String) (a : α) :
    Accepts (do
      times scope.length (expect "\x7d")
      finish
      return a)
      ((scope.flatMap fun _ => phrase "\x7d") ++ [.finish]) a :=
  (Accepts.times (Accepts.expect "\x7d") scope).bind (accepts_finish.returning _)

/-- The accessors are read if they are there. -/
theorem accepts_optional_accessors {β : Type} {shape : AccessorShape}
    (hs : shape.Sound target) {k : Option (List IndexEntry) → Reader β}
    {us : List Token} (hu : Refuses (expect shape.files.opening) us) {b : β}
    (entries : Option (List IndexEntry)) (hk : Accepts (k entries) us b) :
    Accepts (optional (shape.block target) >>= k)
      (entries.elim [] (shape.tokens target) ++ us) b := by
  cases entries with
  | none =>
    -- without accessors the reader meets `us` at once
    have hblock : Refuses (shape.block target) us := (hu.bind _).bind _
    exact .optional_none hblock hk
  | some entries => exact .bind (.optional_some (accepts_accessors hs entries)) hk

end AssetEmbed.Reading
