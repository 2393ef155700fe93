/-
  AssetEmbed.Proofs.Reading.Sheet — reading what was laid out.

  Operations of the layout read as tokens if they do at every depth, so that
  nesting and indentation do not matter.  Sequences of operations read as the
  tokens of their parts in sequence.

  Main results:
    * `Reads.append`      — operations in sequence.
    * `Reads.line`        — a line without a comment.
    * `Reads.commentLine` — a line that ends in a comment.
    * `SameProgram`       — operations of which the same program is left.
-/
import AssetEmbed.Proofs.Reading.Token
import AssetEmbed.Source.CppHeader

namespace AssetEmbed.Reading

open Layout

/-! ## §1. The text of operations. -/

/-- What operations make of an empty sheet at a depth. -/
def laid (ops : List Op) (depth : Nat) : Sheet := applyAll CppHeader.indentUnit ops ⟨"", depth⟩

/-- The characters that operations add at a depth. -/
def chars (ops : List Op) (depth : Nat) : List Char := (laid ops depth).text.toList

theorem laid_append (ops others : List Op) (depth : Nat) :
    laid (ops ++ others) depth
      = ⟨(laid ops depth).text ++ (laid others (laid ops depth).depth).text,
         (laid others (laid ops depth).depth).depth⟩ := by
  unfold laid
  rw [applyAll_append, applyAll_eq]

theorem chars_append (ops others : List Op) (depth : Nat) :
    chars (ops ++ others) depth = chars ops depth ++ chars others (laid ops depth).depth := by
  unfold chars
  rw [laid_append, String.toList_append]

theorem chars_nested (body : List Op) (depth : Nat) :
    chars [.nested body] depth = chars body (depth + 1) := rfl

/-- The blanks in front of a line. -/
def blanks (depth : Nat) : List Char := (indentation CppHeader.indentUnit depth).toList

theorem blanks_succ (depth : Nat) :
    blanks (depth + 1) = [' ', ' ', ' ', ' '] ++ blanks depth := by
  show (CppHeader.indentUnit ++ indentation CppHeader.indentUnit depth).toList = _
  rw [String.toList_append]
  rfl

theorem kept_blanks (depth : Nat) : Kept (blanks depth) := by
  induction depth with
  | zero => exact .nil
  | succ depth ih =>
    rw [blanks_succ]
    exact (Kept.of_plain rfl).append ih

theorem spells_blanks (depth : Nat) : Spells (blanks depth) [] := by
  induction depth with
  | zero => exact .nil
  | succ depth ih =>
    have hunit : Spells [' ', ' ', ' ', ' '] [] := rfl
    rw [blanks_succ]
    exact hunit.append ih

/-- A line is its text with a line feed, after blanks unless it is empty. -/
theorem chars_line (text : String) (depth : Nat) :
    chars [.line text] depth
      = (if text = "" then [] else blanks depth) ++ text.toList ++ ['\n'] := by
  show ("" ++ lineAt CppHeader.indentUnit depth text).toList = _
  unfold lineAt
  split
  · next h => rw [h]; rfl
  · rw [String.toList_append, String.toList_append, String.toList_append]
    rfl

theorem chars_blank (depth : Nat) : chars [.blank] depth = ['\n'] := by
  show ("" ++ "\n").toList = _
  rfl

/-! ## §2. Operations as tokens. -/

/-- Whether operations lay out closed text that holds just these tokens. -/
def Reads (target : Target) (ops : List Op) (ts : List Token) : Prop :=
  ∀ depth, Closed target (chars ops depth) ∧ Spells (program target (chars ops depth)) ts

variable {target : Target}

theorem program_nil (target : Target) : program target [] = [] := by
  cases target <;> rfl

theorem Reads.nil : Reads target [] [] := by
  intro depth
  refine ⟨.nil target, ?_⟩
  show Spells (program target []) []
  rw [program_nil]
  exact .nil

theorem Reads.append {ops others : List Op} {ts us : List Token} (h : Reads target ops ts)
    (h' : Reads target others us) : Reads target (ops ++ others) (ts ++ us) := by
  intro depth
  obtain ⟨hc, hs⟩ := h depth
  -- the second part begins at the depth that the first one leaves
  obtain ⟨hc', hs'⟩ := h' (laid ops depth).depth
  rw [chars_append, program_append hc]
  exact ⟨hc.append hc', hs.append hs'⟩

theorem Reads.cons {op : Op} {ops : List Op} {ts us : List Token} (h : Reads target [op] ts)
    (h' : Reads target ops us) : Reads target (op :: ops) (ts ++ us) :=
  h.append h'

/-- An operation that lays out no tokens does not matter. -/
theorem Reads.skip {op : Op} {ops : List Op} {ts : List Token} (h : Reads target [op] [])
    (h' : Reads target ops ts) : Reads target (op :: ops) ts :=
  h.append h'

theorem Reads.nested {body : List Op} {ts : List Token} (h : Reads target body ts) :
    Reads target [.nested body] ts := by
  intro depth
  rw [chars_nested]
  exact h (depth + 1)

theorem Reads.blank : Reads target [.blank] [] := by
  intro depth
  obtain ⟨hc, hp⟩ := @Kept.line target [] .nil
  rw [List.nil_append] at hc hp
  rw [chars_blank]
  refine ⟨hc, ?_⟩
  rw [hp]
  rfl

theorem Reads.indent : Reads target [.indent] [] := fun depth => Reads.nil depth

theorem Reads.dedent : Reads target [.dedent] [] := fun depth => Reads.nil depth

theorem Reads.flatMap {α : Type} {xs : List α} {f : α → List Op} {g : α → List Token}
    (h : ∀ x ∈ xs, Reads target (f x) (g x)) : Reads target (xs.flatMap f) (xs.flatMap g) := by
  induction xs with
  | nil => exact .nil
  | cons x rest ih =>
    obtain ⟨hx, hrest⟩ := List.forall_mem_cons.1 h
    exact hx.append (ih hrest)

theorem Reads.map {α : Type} {xs : List α} {f : α → Op} {g : α → List Token}
    (h : ∀ x ∈ xs, Reads target [f x] (g x)) : Reads target (xs.map f) (xs.flatMap g) := by
  rw [List.map_eq_flatMap]
  exact .flatMap h

theorem kept_margin (text : String) (depth : Nat) :
    Kept (if text = "" then [] else blanks depth) := by
  split
  · exact .nil
  · exact kept_blanks depth

theorem spells_margin (text : String) (depth : Nat) :
    Spells (if text = "" then [] else blanks depth) [] := by
  split
  · exact .nil
  · exact spells_blanks depth

/-- A line without a comment. -/
theorem Reads.line {text : String} {ts : List Token} (hk : Kept text.toList)
    (hs : Spells (text.toList ++ ['\n']) ts) : Reads target [.line text] ts := by
  intro depth
  obtain ⟨hc, hp⟩ := @Kept.line target _ ((kept_margin text depth).append hk)
  -- the margin spells no token, whatever the depth
  rw [chars_line]
  refine ⟨hc, ?_⟩
  rw [hp, List.append_assoc]
  exact (spells_margin text depth).append hs

/-- A line that is kept and does not depend on anything. -/
theorem Reads.fixed {text : String} (hk : text.toList.all isPlain = true)
    (hs : (transduce tokenize .nothing (text.toList ++ ['\n'])).1 = .nothing) :
    Reads target [.line text] (phrase text) :=
  .line (.of_plain hk) (.line hs)

/-- What is left of a line that ends in a comment. -/
theorem program_commentLine {text : String} {front comment : List Char}
    (htext : text.toList = front ++ '/' :: '/' :: comment) (hf : Kept front)
    (ho : OneLine target comment) (depth : Nat) :
    Closed target (chars [.line text] depth)
      ∧ program target (chars [.line text] depth) = blanks depth ++ front ++ ['\n'] := by
  -- the line is not empty, so it gets its margin
  have hne : text ≠ "" := by
    intro heq
    rw [heq] at htext
    simpa using congrArg List.length htext
  rw [chars_line, if_neg hne, htext, ← List.append_assoc]
  exact ((kept_blanks depth).append hf).comment ho

/-- A line that ends in a comment. -/
theorem Reads.commentLine {text : String} {front comment : List Char} {ts : List Token}
    (htext : text.toList = front ++ '/' :: '/' :: comment) (hf : Kept front)
    (hs : Spells (front ++ ['\n']) ts) (ho : OneLine target comment) :
    Reads target [.line text] ts := by
  intro depth
  obtain ⟨hc, hp⟩ := program_commentLine htext hf ho depth
  refine ⟨hc, ?_⟩
  rw [hp, List.append_assoc]
  exact (spells_blanks depth).append hs

/-- A line that is a comment. -/
theorem Reads.comment {text : String} {comment : List Char}
    (htext : text.toList = '/' :: '/' :: comment) (ho : OneLine target comment) :
    Reads target [.line text] [] :=
  @Reads.commentLine target text [] comment [] htext .nil rfl ho

/-! ## §3. Operations of which the same is left. -/

/-- Whether two lists of operations lay out closed text of which the same
program is left. -/
def SameProgram (target : Target) (ops others : List Op) : Prop :=
  ∀ depth, Closed target (chars ops depth) ∧ Closed target (chars others depth)
    ∧ program target (chars ops depth) = program target (chars others depth)
    ∧ (laid ops depth).depth = (laid others depth).depth

theorem Reads.same {ops : List Op} {ts : List Token} (h : Reads target ops ts) :
    SameProgram target ops ops :=
  fun depth => ⟨(h depth).1, (h depth).1, rfl, rfl⟩

theorem SameProgram.append {ops ops' others others' : List Op} (h : SameProgram target ops ops')
    (h' : SameProgram target others others') :
    SameProgram target (ops ++ others) (ops' ++ others') := by
  intro depth
  obtain ⟨hc, hd, hp, hdepth⟩ := h depth
  obtain ⟨hc', hd', hp', hdepth'⟩ := h' (laid ops depth).depth
  rw [chars_append, chars_append, ← hdepth, program_append hc, program_append hd, laid_append,
    laid_append, ← hdepth]
  exact ⟨hc.append hc', hd.append hd', by rw [hp, hp'], hdepth'⟩

theorem SameProgram.flatMap {α : Type} {xs : List α} {f g : α → List Op}
    (h : ∀ x ∈ xs, SameProgram target (f x) (g x)) :
    SameProgram target (xs.flatMap f) (xs.flatMap g) := by
  induction xs with
  | nil => exact Reads.nil.same
  | cons x rest ih =>
    obtain ⟨hx, hrest⟩ := List.forall_mem_cons.1 h
    exact hx.append (ih hrest)

/-- Lines that are comments, whatever they say. -/
theorem SameProgram.comments {text text' : String} {comment comment' : List Char}
    (htext : text.toList = '/' :: '/' :: comment) (ho : OneLine target comment)
    (htext' : text'.toList = '/' :: '/' :: comment') (ho' : OneLine target comment') :
    SameProgram target [.line text] [.line text'] := by
  intro depth
  obtain ⟨hc, hp⟩ := @program_commentLine target text [] comment htext .nil ho depth
  obtain ⟨hc', hp'⟩ := @program_commentLine target text' [] comment' htext' .nil ho' depth
  exact ⟨hc, hc', hp.trans hp'.symm, rfl⟩

end AssetEmbed.Reading
