/-
  AssetEmbed.Proofs.Table — the columns of a table.

  The columns of paths and of symbols are as wide as the bytes of their longest
  text, but cells are filled up by characters.  A text has no more characters than
  bytes, so that every text fits into its column and the fill ends at one place in
  all lines; it may only be longer than it would have to be.  The column of types
  has a fixed width, and no type is longer than it.

  Main results:
    * `length_le_utf8ByteSize` — characters and bytes of a text.
    * `widest_le_iff`          — the width of a column is the least that will do.
    * `shows_line`             — a line shows its row, if all its texts fit.
    * `table_aligned`          — every line of the table of a listing shows its row.
-/
import AssetEmbed.Proofs.Listing

namespace AssetEmbed

open MediaType

namespace Row

/-! ## §1. Cells. -/

/-- A number of blanks. -/
def blanks (n : Nat) : String := String.ofList (List.replicate n ' ')

theorem blanks_append (m n : Nat) : blanks m ++ blanks n = blanks (m + n) := by
  rw [blanks, blanks, blanks, ← String.ofList_append, List.replicate_append_replicate]

/-- No text has more characters than bytes. -/
theorem length_le_utf8ByteSize (text : String) : text.length ≤ text.utf8ByteSize := by
  have hchars : ∀ cs : List Char, cs.length ≤ (String.ofList cs).utf8ByteSize := by
    intro cs
    induction cs with
    | nil => exact Nat.zero_le _
    | cons c rest ih =>
      have hpos : 0 < c.utf8Size := c.utf8Size_pos
      rw [String.ofList_cons, String.utf8ByteSize_append, String.utf8ByteSize_singleton,
        List.length_cons]
      omega
  have htext := hchars text.toList
  rwa [String.ofList_toList, String.length_toList] at htext

theorem foldl_max_le_iff {widths : List Nat} {least bound : Nat} :
    widths.foldl max least ≤ bound ↔ least ≤ bound ∧ ∀ w ∈ widths, w ≤ bound := by
  induction widths generalizing least with
  | nil => simp
  | cons w rest ih => rw [List.foldl_cons, ih, Nat.max_le, List.forall_mem_cons, and_assoc]

/-- The width of a column is the least with which all its texts fit. -/
theorem widest_le_iff {least bound : Nat} {texts : List String} :
    widest least texts ≤ bound
      ↔ least ≤ bound ∧ ∀ text ∈ texts, text.utf8ByteSize ≤ bound := by
  rw [widest, foldl_max_le_iff, List.forall_mem_map]

/-- Every text of a column fits, also if characters are counted. -/
theorem length_le_widest {least : Nat} {texts : List String} {text : String}
    (h : text ∈ texts) : text.length ≤ widest least texts :=
  Nat.le_trans (length_le_utf8ByteSize text) ((widest_le_iff.1 (Nat.le_refl _)).2 text h)

theorem le_widest (least : Nat) (texts : List String) : least ≤ widest least texts :=
  (widest_le_iff.1 (Nat.le_refl _)).1

/-- A text that fits is filled up with as many blanks as there is room for, and
two more stand in front of the next column. -/
theorem pad_append_gap (width : Nat) (text : String) :
    pad width text ++ gap = text ++ blanks (width - text.length + 2) := by
  have hpad : pad width text = text ++ blanks (width - text.length) := rfl
  have hgap : gap = blanks 2 := by decide
  rw [hpad, hgap, String.append_assoc, blanks_append]

/-! ## §2. Lines. -/

/-- Where the columns of a table begin, in characters from the front of a line;
paths begin at the front. -/
structure Columns where
  symbol : Nat
  mime : Nat
  size : Nat
deriving DecidableEq

/-- A line shows a row: it has all texts of the row, each from the front of its
column, with at least two blanks between one text and the next. -/
def Columns.Shows (c : Columns) (r : Row) (text : String) : Prop :=
  ∃ m n k, text = r.path ++ blanks m ++ r.symbolText ++ blanks n ++ r.mime ++ blanks k
        ++ r.sizeText ++ "\n"
    ∧ 2 ≤ m ∧ r.path.length + m = c.symbol
    ∧ 2 ≤ n ∧ c.symbol + r.symbolText.length + n = c.mime
    ∧ 2 ≤ k ∧ c.mime + r.mime.length + k = c.size

/-- The columns of a table with the widths of its first two. -/
def Columns.ofWidths (pathWidth symbolWidth : Nat) : Columns :=
  ⟨pathWidth + 2, pathWidth + symbolWidth + 4, pathWidth + symbolWidth + mimeWidth + 6⟩

/-- The columns of the table of some rows. -/
def columns (rows : List Row) : Columns :=
  .ofWidths (widest 0 (rows.map (·.path))) (widest 1 (rows.filterMap (·.symbol)))

/-- A line shows its row, if all its texts fit. -/
theorem shows_line {pathWidth symbolWidth : Nat} {r : Row} (hpath : r.path.length ≤ pathWidth)
    (hsymbol : r.symbolText.length ≤ symbolWidth) (hmime : r.mime.length ≤ mimeWidth) :
    (Columns.ofWidths pathWidth symbolWidth).Shows r (line pathWidth symbolWidth r) := by
  refine ⟨pathWidth - r.path.length + 2, symbolWidth - r.symbolText.length + 2,
    mimeWidth - r.mime.length + 2, ?_, ?_⟩
  · have htexts : line pathWidth symbolWidth r
        = (pad pathWidth r.path ++ gap) ++ (pad symbolWidth r.symbolText ++ gap)
          ++ (pad mimeWidth r.mime ++ gap) ++ r.sizeText ++ "\n" := by
      simp only [line, String.append_assoc]
    rw [htexts, pad_append_gap, pad_append_gap, pad_append_gap]
    simp only [String.append_assoc]
  · dsimp only [Columns.ofWidths]
    omega

theorem symbolText_le_widest {rows : List Row} {r : Row} (hr : r ∈ rows) :
    r.symbolText.length ≤ widest 1 (rows.filterMap (·.symbol)) := by
  cases hsymbol : r.symbol with
  | none =>
    rw [symbolText, hsymbol]
    exact le_widest 1 _
  | some symbol =>
    rw [symbolText, hsymbol]
    exact length_le_widest (List.mem_filterMap.2 ⟨r, hr, hsymbol⟩)

/-- Every line of a table shows its row, if all types fit. -/
theorem exists_lines {rows : List Row} (hmime : ∀ r ∈ rows, r.mime.length ≤ mimeWidth) :
    ∃ lines, table rows = String.join lines
      ∧ List.Forall₂ (columns rows).Shows rows lines := by
  refine ⟨_, rfl, ?_⟩
  rw [List.forall₂_map_right_iff, List.forall₂_same]
  intro r hr
  have hpath : r.path.length ≤ widest 0 (rows.map (·.path)) :=
    length_le_widest (List.mem_map_of_mem hr)
  exact shows_line hpath (symbolText_le_widest hr) (hmime r hr)

/-! ## §3. Listings. -/

/-- No type is longer than its column. -/
theorem length_ofExtension_le (ext : Option String) : (ofExtension ext).length ≤ mimeWidth := by
  unfold ofExtension
  split <;> decide

variable {b : Bundle} {queries : List String} {r : Row}

theorem length_mime_ofBundle (hr : r ∈ ofBundle b) : r.mime.length ≤ mimeWidth := by
  rw [ofBundle_eq] at hr
  obtain ⟨a, -, rfl⟩ := List.mem_map.1 hr
  exact length_ofExtension_le _

/-- The row of a query is one of the rows, or has the type of unknown content. -/
theorem length_mime_of_answers {rows : List Row} {query : String}
    (hrows : ∀ r ∈ rows, r.mime.length ≤ mimeWidth) (h : Answers rows query r) :
    r.mime.length ≤ mimeWidth := by
  cases h with
  | bundled hr _ => exact hrows r hr
  | unbundled _ =>
    show octetStream.length ≤ mimeWidth
    decide

theorem length_mime_select (hr : r ∈ select b queries) : r.mime.length ≤ mimeWidth := by
  unfold select at hr
  split at hr
  · exact length_mime_ofBundle hr
  · rw [ofQueries_eq] at hr
    obtain ⟨query, -, rfl⟩ := List.mem_map.1 hr
    exact length_mime_of_answers (fun _ hrow => length_mime_ofBundle hrow) (answers_ofQuery b query)

/-- The table of a listing has one line for each row, in their order.  Whatever
characters the paths consist of, symbols, types and sizes begin at the same places
in all lines, with two blanks at least in front of them, and no text is cut off. -/
theorem table_aligned (b : Bundle) (queries : List String) :
    ∃ lines, table (select b queries) = String.join lines
      ∧ List.Forall₂ (columns (select b queries)).Shows (select b queries) lines :=
  exists_lines fun _ hr => length_mime_select hr

/-- A character of two bytes makes the column of paths wider by one blank. -/
example : columns [⟨"é.css", some "X_CSS", "text/css", some 7⟩, ⟨"a", none, "text/css", none⟩]
    = ⟨8, 15, 41⟩ := by
  decide

end Row

end AssetEmbed
