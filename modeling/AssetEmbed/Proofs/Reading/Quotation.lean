/-
  AssetEmbed.Proofs.Reading.Quotation — quoted texts of C++.

  A literal is read from its opening quote on, up to the quote that ends it;
  what stands after it is left over.  Between the quotes of an include nothing
  is escaped, so there a name must be written as it is.

  Main results:
    * `finish?_append`        — a stretch of text inside a literal is read over.
    * `cppLiteral?_quote`     — a quoted text is read back, whatever comes after it.
    * `selfContained_escape`  — what a quoted text holds between its quotes.
    * `hasLine_include`       — an included file has a line of the header.
    * `includes_quote`        — a line that quotes the name of a file includes it.
    * `quote_exact`           — all of this for every text and every plan.
-/
import AssetEmbed.Proofs.Bundling
import AssetEmbed.Proofs.Reading.Cpp
import Mathlib.Data.List.Induction

namespace AssetEmbed.Reading

/-! ## §1. Reading a literal. -/

/-- Reads on to the quote that ends a literal: how it is spelled, and what stands
after it.  No line ends inside a literal. -/
def finish? : Begun → List Char → Option (List Char × List Char)
  | _, [] => none
  | k, c :: rest =>
    if c = '\n' then none
    else
      match tokenize k c with
      | (_, .literal spelling :: _) => some (spelling, rest)
      | (k', _) => finish? k' rest

/-- Reads a literal of C++ from its opening quote on: the text, and what stands
after the literal. -/
def cppLiteral? : List Char → Option (List Char × List Char)
  | '"' :: rest =>
    (finish? (.literal []) rest).bind fun (spelling, after) =>
      (unescape .cpp spelling).map fun text => (text, after)
  | _ => none

/-- What hands out no token is read over. -/
theorem finish?_append {k k' : Begun} {cs : List Char} (h : transduce tokenize k cs = (k', []))
    (hn : '\n' ∉ cs) (rest : List Char) : finish? k (cs ++ rest) = finish? k' rest := by
  induction cs generalizing k with
  | nil =>
    cases h
    rfl
  | cons c cs ih =>
    rw [List.mem_cons, not_or] at hn
    obtain ⟨hc, hcs⟩ := hn
    simp only [transduce, Prod.mk.injEq, List.append_eq_nil_iff] at h
    obtain ⟨hk, hout, hlater⟩ := h
    have hstep : tokenize k c = ((tokenize k c).1, []) := Prod.ext rfl hout
    rw [List.cons_append, finish?, if_neg (Ne.symm hc), hstep]
    exact ih (Prod.ext hk hlater) hcs

/-- A quoted text is read back, and what comes after it is left over. -/
theorem cppLiteral?_quote (text : String) (rest : List Char) :
    cppLiteral? ((OctalLiteral.quote text).toList ++ rest) = some (text.toList, rest) := by
  have hinner := quotable_escape .cpp text.toList
  have hquote : (OctalLiteral.quote text).toList ++ rest
      = '"' :: (text.toList.flatMap (escapeChar .cpp) ++ '"' :: rest) := by
    have hwhole : (OctalLiteral.quote text).toList
        = '"' :: text.toList.flatMap (escapeChar .cpp) ++ ['"'] := toList_quote .cpp text
    rw [hwhole, List.append_assoc]
    rfl
  have hend : finish? (.literal []) (text.toList.flatMap (escapeChar .cpp) ++ '"' :: rest)
      = some (text.toList.flatMap (escapeChar .cpp), rest) := by
    rw [finish?_append (hinner.token []) hinner.unbroken]
    rfl
  rw [hquote]
  simp only [cppLiteral?, hend, Option.bind_some, unescape_escape, Option.map_some]

/-- A digit after a control character is not taken into its escape. -/
example : cppLiteral? ['"', '\\', '0', '0', '7', '1', '"', ';'] = some (['\x07', '1'], [';']) := by
  decide

/-! ## §2. Between the quotes. -/

/-- How many backslashes stand at the end of a text. -/
def backslashes (cs : List Char) : Nat := (cs.reverse.takeWhile (· == '\\')).length

/-- Whether the character after a text is escaped: of the backslashes before it,
each escapes the next one, and one is left over. -/
def Escapes (front : List Char) : Prop := backslashes front % 2 = 1

/-- A text that stands between the quotes of a literal and means the same in
every phase of a compiler. -/
structure SelfContained (inner : List Char) : Prop where
  /-- Nothing is a control character of ASCII, such as the ends of lines are. -/
  printable : ∀ c ∈ inner, 0x20 ≤ c.toNat ∧ c.toNat ≠ 0x7F
  /-- Quotes and question marks are escaped. -/
  escaped : ∀ front c rest, inner = front ++ c :: rest → c = '"' ∨ c = '?' → Escapes front
  /-- No trigraph begins. -/
  no_trigraph : ¬ ['?', '?'] <:+: inner

theorem backslashes_concat_backslash (cs : List Char) :
    backslashes (cs ++ ['\\']) = backslashes cs + 1 := by
  simp [backslashes]

theorem backslashes_concat_of_ne (cs : List Char) {c : Char} (h : c ≠ '\\') :
    backslashes (cs ++ [c]) = 0 := by
  simp [backslashes, h]

/-! ## §3. How characters are written. -/

/-- The three ways in which a character is written. -/
inductive Written (c : Char) : List Char → Prop where
  /-- A backslash and a character that stands for this one. -/
  | pair {d : Char} (hd : d = '\\' → c = '\\') (hprint : OctalLiteral.isControl d = false) :
      Written c ['\\', d]
  | octal (hc : OctalLiteral.isControl c = true) :
      Written c ('\\' :: OctalLiteral.octalTriple c.toNat)
  | itself (hback : c ≠ '\\') (hquote : c ≠ '"') (hmark : c ≠ '?')
      (hprint : OctalLiteral.isControl c = false) : Written c [c]

theorem written_escapeChar (c : Char) : Written c (OctalLiteral.escapeChar c) := by
  unfold OctalLiteral.escapeChar
  split_ifs with hb hq hn hr ht hm hc
  · exact .pair (fun _ => hb) rfl
  · exact .pair (fun h => absurd h (by decide)) rfl
  · exact .pair (fun h => absurd h (by decide)) rfl
  · exact .pair (fun h => absurd h (by decide)) rfl
  · exact .pair (fun h => absurd h (by decide)) rfl
  · exact .pair (fun h => absurd h (by decide)) rfl
  · exact .octal hc
  · exact .itself hb hq hm (Bool.eq_false_iff.2 hc)

/-- A character that needs no backslash, as no octal digit does. -/
def isBare (c : Char) : Bool :=
  !OctalLiteral.isControl c && c != '"' && c != '?' && c != '\\'

theorem isBare_spec {c : Char} :
    isBare c = true ↔ OctalLiteral.isControl c = false ∧ c ≠ '"' ∧ c ≠ '?' ∧ c ≠ '\\' := by
  simp [isBare, and_assoc]

theorem octalTriple_bare : ∀ n < 128, (OctalLiteral.octalTriple n).all isBare = true := by decide

namespace Written

variable {c d : Char} {written own later : List Char}

theorem bare_of_mem_octal (hc : OctalLiteral.isControl c = true)
    (h : d ∈ OctalLiteral.octalTriple c.toNat) :
    OctalLiteral.isControl d = false ∧ d ≠ '"' ∧ d ≠ '?' ∧ d ≠ '\\' :=
  isBare_spec.1 (List.all_eq_true.1 (octalTriple_bare c.toNat (isControl_lt hc)) d h)

/-- No character is written with a control character. -/
theorem printable (h : Written c written) : ∀ d ∈ written, OctalLiteral.isControl d = false := by
  intro d hd
  cases h with
  | pair _ hprint =>
    rcases List.mem_pair.1 hd with rfl | rfl
    · rfl
    · exact hprint
  | octal hc =>
    rcases List.mem_cons.1 hd with rfl | hd
    · rfl
    · exact (bare_of_mem_octal hc hd).1
  | itself _ _ _ hprint => rwa [List.mem_singleton.1 hd]

/-- A quote or a question mark is written with just one backslash before it. -/
theorem eq_backslash (h : Written c (own ++ d :: later)) (hd : d = '"' ∨ d = '?') :
    own = ['\\'] := by
  have hback : d ≠ '\\' := by
    rintro rfl
    revert hd
    decide
  have hmem : d ∈ own ++ d :: later := List.mem_append_right _ List.mem_cons_self
  generalize hw : own ++ d :: later = written at h hmem
  cases h with
  | pair =>
    match own with
    | [] => exact absurd (List.cons.inj hw).1 hback
    | [a] => rw [(List.cons.inj hw).1]
    | a :: b :: own => simp at hw
  -- neither stands among octal digits, nor for itself
  | octal hc =>
    have hbare := bare_of_mem_octal hc ((List.mem_cons.1 hmem).resolve_left hback)
    exact absurd hd (not_or.2 ⟨hbare.2.1, hbare.2.2.1⟩)
  | itself _ hquote hmark _ =>
    rw [List.mem_singleton.1 hmem] at hd
    exact absurd hd (not_or.2 ⟨hquote, hmark⟩)

/-- Only a backslash is written with a backslash at the end. -/
theorem eq_concat (h : Written c written) (hc : c ≠ '\\') :
    ∃ front d, written = front ++ [d] ∧ d ≠ '\\' := by
  cases h with
  | @pair d hd _ => exact ⟨['\\'], d, rfl, fun h => hc (hd h)⟩
  | octal hcontrol =>
    have hlast := bare_of_mem_octal hcontrol
      (show OctalLiteral.octalDigit (c.toNat % 8) ∈ OctalLiteral.octalTriple c.toNat by
        simp [OctalLiteral.octalTriple])
    exact ⟨_ :: [_, _], _, rfl, hlast.2.2.2⟩
  | itself => exact ⟨[], c, rfl, hc⟩

end Written

/-! ## §4. What a quoted text holds. -/

theorem isControl_eq_false_iff {c : Char} :
    OctalLiteral.isControl c = false ↔ 0x20 ≤ c.toNat ∧ c.toNat ≠ 0x7F := by
  simp [OctalLiteral.isControl]

/-- After whole characters nothing is escaped. -/
theorem backslashes_flatMap (cs : List Char) :
    backslashes (cs.flatMap OctalLiteral.escapeChar) % 2 = 0 := by
  induction cs using List.reverseRecOn with
  | nil => rfl
  | append_singleton cs c ih =>
    rw [List.flatMap_append, List.flatMap_singleton]
    by_cases hc : c = '\\'
    · -- two more backslashes
      have hpair : OctalLiteral.escapeChar c = ['\\'] ++ ['\\'] := by rw [hc]; rfl
      rw [hpair, ← List.append_assoc, backslashes_concat_backslash, backslashes_concat_backslash]
      omega
    · obtain ⟨front, d, heq, hd⟩ := (written_escapeChar c).eq_concat hc
      rw [heq, ← List.append_assoc, backslashes_concat_of_ne _ hd]

theorem selfContained_escape (text : String) : SelfContained (OctalLiteral.escape text).toList := by
  have hinner : (OctalLiteral.escape text).toList
      = text.toList.flatMap OctalLiteral.escapeChar := String.toList_ofList
  have hescaped : ∀ front c rest, (OctalLiteral.escape text).toList = front ++ c :: rest →
      c = '"' ∨ c = '?' → Escapes front := by
    intro front c rest hsplit hc
    rw [hinner] at hsplit
    obtain ⟨xs, x, ys, own, later, -, hx, rfl⟩ := flatMap_eq_append_cons hsplit
    have hwritten := written_escapeChar x
    rw [hx] at hwritten
    -- the backslash of the character itself comes after whole characters
    rw [hwritten.eq_backslash hc, Escapes, backslashes_concat_backslash]
    have heven := backslashes_flatMap xs
    omega
  refine ⟨fun c hc => ?_, hescaped, ?_⟩
  · rw [hinner] at hc
    obtain ⟨x, -, hx⟩ := List.mem_flatMap.1 hc
    exact isControl_eq_false_iff.1 ((written_escapeChar x).printable c hx)
  -- right after a question mark nothing is escaped
  · rintro ⟨front, rest, hsplit⟩
    have hsecond := hescaped (front ++ ['?']) '?' rest (by rw [← hsplit]; simp) (.inr rfl)
    rw [Escapes, backslashes_concat_of_ne _ (by decide)] at hsecond
    omega

/-! ## §5. Included files. -/

open Layout

/-- Whether a line includes a file.  What stands between the quotes is the name as
it is: a backslash means nothing there, and the first quote ends the name. -/
def Includes (line file : List Char) : Prop :=
  line = "#include \"".toList ++ file ++ ['"'] ∧ '"' ∉ file ∧ '\n' ∉ file

/-- Whether a text has this line, after another one. -/
def HasLine (text line : List Char) : Prop :=
  ∃ above below, text = above ++ '\n' :: line ++ '\n' :: below

/-- Whether an operation writes a line at the depth that it finds. -/
def IsFlat : Op → Prop
  | .line _ => True
  | .blank => True
  | _ => False

theorem depth_laid_of_flat {ops : List Op} (h : ∀ op ∈ ops, IsFlat op) (depth : Nat) :
    (laid ops depth).depth = depth := by
  induction ops with
  | nil => rfl
  | cons op rest ih =>
    obtain ⟨hop, hrest⟩ := List.forall_mem_cons.1 h
    have hone : (laid [op] depth).depth = depth := by
      cases op with
      | line _ | blank => rfl
      | indent | dedent | nested _ => exact hop.elim
    have hall := congrArg Sheet.depth (laid_append [op] rest depth)
    simpa only [List.singleton_append, hone, ih hrest] using hall

/-- What is written on flat lines ends a line. -/
theorem chars_concat_of_flat (ops : List Op) {op : Op} (h : IsFlat op) (depth : Nat) :
    ∃ above, chars (ops ++ [op]) depth = above ++ ['\n'] := by
  rw [chars_append]
  cases op with
  | line text =>
    rw [chars_line, ← List.append_assoc]
    exact ⟨_, rfl⟩
  | blank => exact ⟨chars ops depth, by rw [chars_blank]⟩
  | indent | dedent | nested _ => exact h.elim

theorem toList_render (ops : List Op) :
    (Layout.render CppHeader.indentUnit ops).toList = chars ops 0 := by
  unfold Layout.render chars laid Sheet.empty
  rfl

/-- A line after flat lines is not indented. -/
theorem hasLine_of_flat {front back : List Op} {text : String} (hne : front ≠ [])
    (hf : ∀ op ∈ front, IsFlat op) :
    HasLine (Layout.render CppHeader.indentUnit (front ++ .line text :: back)).toList text.toList := by
  obtain ⟨ops, op, rfl⟩ := (List.eq_nil_or_concat' front).resolve_left hne
  have hlast : IsFlat op := hf op (List.mem_append_right _ (List.mem_singleton_self op))
  obtain ⟨above, habove⟩ := chars_concat_of_flat ops hlast 0
  have hmargin : (if text = "" then [] else blanks 0) = [] := by
    split
    · rfl
    · rfl
  have hline : (laid [.line text] 0).depth = 0 :=
    depth_laid_of_flat (fun op hop => by rw [List.mem_singleton.1 hop]; trivial) 0
  have hback : Op.line text :: back = [Op.line text] ++ back := rfl
  refine ⟨above, chars back 0, ?_⟩
  rw [toList_render, hback, chars_append (ops ++ [op]), depth_laid_of_flat hf,
    chars_append [Op.line text], hline, chars_line, hmargin, habove]
  simp only [List.nil_append, List.append_assoc, List.cons_append]

/-- What stands above an included file in a header, with the files included before it. -/
def preface (u : SourceUnit) (before : List String) : List Op :=
  [.line generatedNotice, .line u.kind.provenance, .blank, .line "#pragma once", .blank,
      .line "#include <string>"]
    ++ ((if u.accessors?.isSome then [.line "#include <unordered_map>"] else [])
    ++ (.line "#include <vector>" :: .blank
      :: before.map fun file => .line ("#include " ++ OctalLiteral.quote file)))

theorem flat_preface {u : SourceUnit} {before : List String} : ∀ op ∈ preface u before, IsFlat op := by
  intro op hop
  rcases List.mem_append.1 hop with hop | hop
  · simp only [List.mem_cons, List.not_mem_nil, or_false] at hop
    rcases hop with rfl | rfl | rfl | rfl | rfl | rfl <;> trivial
  rcases List.mem_append.1 hop with hop | hop
  · split at hop
    · rw [List.mem_singleton.1 hop]
      trivial
    · cases hop
  · simp only [List.mem_cons, List.mem_map] at hop
    rcases hop with rfl | rfl | ⟨file, -, rfl⟩ <;> trivial

theorem layout_of_includes {u : SourceUnit} {before after : List String} {file : String}
    (h : u.includes = before ++ file :: after) (ctx : RenderContext) :
    ∃ back, CppHeader.layout u ctx
      = preface u before ++ Op.line ("#include " ++ OctalLiteral.quote file) :: back := by
  have hsome : u.includes.isEmpty = false := by
    rw [h]
    cases before <;> rfl
  unfold CppHeader.layout preface
  rw [hsome, h, List.map_append, List.map_cons]
  simp only [List.append_assoc, List.cons_append, List.nil_append, Bool.false_eq_true, if_false]
  exact ⟨_, rfl⟩

/-- An included file has a line of the header. -/
theorem hasLine_include {u : SourceUnit} {file : String} (h : file ∈ u.includes)
    (ctx : RenderContext) :
    HasLine (CppHeader.render u ctx).toList ("#include " ++ OctalLiteral.quote file).toList := by
  obtain ⟨before, after, hsplit⟩ := List.append_of_mem h
  obtain ⟨back, hlayout⟩ := layout_of_includes hsplit ctx
  rw [CppHeader.render, hlayout]
  exact hasLine_of_flat (List.cons_ne_nil _ _) flat_preface

/-- Files are included under the names that they are written to. -/
theorem mem_includes {b : Bundle} {s : Settings} {u : SourceUnit} (hu : u ∈ units b s)
    {file : String} (hf : file ∈ u.includes) :
    ∃ v ∈ units b s, file = s.target.fileName v.stem ∧ IsWord v.stem.toList := by
  rcases eq_of_mem_units hu with ⟨-, a, -, rfl⟩ | rfl
  -- a unit of one asset includes nothing
  · simp [SourceUnit.includes, assetUnit, Declaration.ofAsset] at hf
  · rw [includes_indexUnit] at hf
    cases hm : s.mode with
    | combined =>
      rw [hm] at hf
      cases hf
    | split =>
      rw [hm] at hf
      obtain ⟨a, ha, rfl⟩ := List.mem_map.1 hf
      refine ⟨assetUnit a, ?_, rfl, isWord_symbol a⟩
      unfold units
      rw [hm]
      exact List.mem_append_left _ (List.mem_map_of_mem ha)

example : (plan scriptAndPage { Settings.default with mode := .split }).toOption.map
    (·.flatMap SourceUnit.includes) = some ["app_js.hpp", "index_html.hpp"] := by
  decide +kernel

theorem escape_eq_self {target : Target} {stem : String} (h : IsWord stem.toList) :
    OctalLiteral.escape (target.fileName stem) = target.fileName stem := by
  have hchars : (target.fileName stem).toList.flatMap OctalLiteral.escapeChar
      = (target.fileName stem).toList := Cpp.escape_fileName h
  rw [OctalLiteral.escape, hchars, String.ofList_toList]

/-- A line that quotes the name of a generated file includes that file. -/
theorem includes_quote {target : Target} {stem : String} (h : IsWord stem.toList) :
    Includes ("#include " ++ OctalLiteral.quote (target.fileName stem)).toList
      (target.fileName stem).toList := by
  have hplain : (target.fileName stem).toList.all isPlain = true := by
    unfold Target.fileName
    rw [String.toList_append, String.toList_append, List.all_append, List.all_append,
      h.all_isPlain]
    cases target <;> rfl
  refine ⟨?_, fun hq => ?_, fun hn => ?_⟩
  · rw [OctalLiteral.quote, escape_eq_self h]
    simp
  · exact absurd (List.all_eq_true.1 hplain _ hq) (by decide)
  · exact absurd (List.all_eq_true.1 hplain _ hn) (by decide)

/-! ## §6. Every text and every plan. -/

/-- A quoted text reads as that text, whatever it holds and whatever comes after it,
and holds nothing that could be taken for something else.  The names of included
files are written without escapes, each on a line that includes the file. -/
theorem quote_exact :
    (∀ (text : String) (rest : List Char),
        cppLiteral? ((OctalLiteral.quote text).toList ++ rest) = some (text.toList, rest))
    ∧ (∀ text : String, SelfContained (OctalLiteral.escape text).toList)
    ∧ ∀ (b : Bundle) (s : Settings) (us : List SourceUnit), plan b s = .ok us →
        ∀ u ∈ us, ∀ file ∈ u.includes,
          OctalLiteral.escape file = file
          ∧ (∃ v ∈ us, file = (v.rendered s).fileName)
          ∧ (s.target = .cpp → ∃ line, HasLine (u.rendered s).content.toList line
              ∧ Includes line file.toList) := by
  refine ⟨cppLiteral?_quote, selfContained_escape, fun b s us hplan u hu file hf => ?_⟩
  obtain ⟨rfl, -⟩ := accepted_of_plan hplan
  obtain ⟨v, hv, hfile, hword⟩ := mem_includes hu hf
  refine ⟨hfile ▸ escape_eq_self hword, ⟨v, hv, hfile⟩, fun hcpp => ?_⟩
  have hcontent : (u.rendered s).content = CppHeader.render u s.renderContext := by
    rw [SourceUnit.rendered, hcpp, Target.render]
  rw [hcontent]
  exact ⟨_, hasLine_include hf s.renderContext, hfile ▸ includes_quote hword⟩

end AssetEmbed.Reading
