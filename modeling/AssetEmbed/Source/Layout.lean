/-
  AssetEmbed.Source.Layout — indented text as a tree of operations.

  A generated file is laid out on a sheet by operations that write lines and
  change the depth.  The depth is a natural number, so it never falls below
  zero, whatever the operations are.

  Main results:
    * `applyAll_append`   — operations in sequence are applied in sequence.
    * `applyAll_text_eq`  — what is written does not depend on what stands
      above it: the new text is appended.
-/

namespace AssetEmbed.Layout

/-- An operation of the layout. -/
inductive Op where
  /-- One line at the current depth; an empty one is not indented. -/
  | line (text : String)
  | blank
  | indent
  | dedent
  /-- A block one level deeper. -/
  | nested (body : List Op)

/-- The text written so far and the depth of the next line. -/
structure Sheet where
  text : String
  depth : Nat
deriving DecidableEq, Repr

/-- A sheet with nothing on it. -/
def Sheet.empty : Sheet := ⟨"", 0⟩

/-! ## §1. Writing. -/

/-- `depth` copies of the indent unit. -/
def indentation (unit : String) : Nat → String
  | 0 => ""
  | depth + 1 => unit ++ indentation unit depth

/-- A line with its end; nothing stands before the end of an empty one. -/
def lineAt (unit : String) (depth : Nat) (text : String) : String :=
  if text = "" then "\n" else indentation unit depth ++ text ++ "\n"

mutual

/-- What an operation makes of a sheet. -/
def Op.apply (unit : String) : Op → Sheet → Sheet
  | .line text, sheet => { sheet with text := sheet.text ++ lineAt unit sheet.depth text }
  | .blank, sheet => { sheet with text := sheet.text ++ "\n" }
  | .indent, sheet => { sheet with depth := sheet.depth + 1 }
  | .dedent, sheet => { sheet with depth := sheet.depth - 1 }
  | .nested body, sheet =>
    let inner := applyAll unit body { sheet with depth := sheet.depth + 1 }
    { inner with depth := inner.depth - 1 }

/-- What operations in sequence make of a sheet. -/
def applyAll (unit : String) : List Op → Sheet → Sheet
  | [], sheet => sheet
  | op :: ops, sheet => applyAll unit ops (op.apply unit sheet)

end

/-- The text of operations on an empty sheet. -/
def render (unit : String) (ops : List Op) : String := (applyAll unit ops .empty).text

/-- The text that each operation adds in turn, from a depth on. -/
def transcript (unit : String) : List Op → Nat → List String
  | [], _ => []
  | op :: ops, depth =>
    let sheet := op.apply unit ⟨"", depth⟩
    sheet.text :: transcript unit ops sheet.depth

/-! ## §2. Sequences. -/

theorem applyAll_append (unit : String) (ops others : List Op) (sheet : Sheet) :
    applyAll unit (ops ++ others) sheet = applyAll unit others (applyAll unit ops sheet) := by
  induction ops generalizing sheet with
  | nil => simp [applyAll]
  | cons op ops ih => simp [applyAll, ih]

mutual

theorem Op.apply_eq (unit : String) (op : Op) (sheet : Sheet) :
    op.apply unit sheet
      = ⟨sheet.text ++ (op.apply unit ⟨"", sheet.depth⟩).text,
         (op.apply unit ⟨"", sheet.depth⟩).depth⟩ := by
  match op with
  | .line text => simp [Op.apply]
  | .blank => simp [Op.apply]
  | .indent => simp [Op.apply]
  | .dedent => simp [Op.apply]
  | .nested body =>
    have h := applyAll_eq unit body ⟨sheet.text, sheet.depth + 1⟩
    simp [Op.apply, h]

theorem applyAll_eq (unit : String) (ops : List Op) (sheet : Sheet) :
    applyAll unit ops sheet
      = ⟨sheet.text ++ (applyAll unit ops ⟨"", sheet.depth⟩).text,
         (applyAll unit ops ⟨"", sheet.depth⟩).depth⟩ := by
  match ops with
  | [] => simp [applyAll]
  | op :: ops =>
    simp only [applyAll]
    rw [Op.apply_eq unit op sheet, applyAll_eq unit ops ⟨_, _⟩,
      applyAll_eq unit ops (op.apply unit ⟨"", sheet.depth⟩)]
    simp [String.append_assoc]

end

/-- The new text is appended to what stands on the sheet. -/
theorem applyAll_text_eq (unit : String) (ops : List Op) (sheet : Sheet) :
    (applyAll unit ops sheet).text
      = sheet.text ++ (applyAll unit ops ⟨"", sheet.depth⟩).text := by
  rw [applyAll_eq]

end AssetEmbed.Layout
