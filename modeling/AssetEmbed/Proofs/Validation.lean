/-
  AssetEmbed.Proofs.Validation — which settings are accepted.

  Each check of the settings reports its own problems, whatever the others do.
  The grammars of scopes and file stems are regular languages; a scope is one
  just if all of the pieces between `::` are identifiers.  The pieces that are
  checked are those that scopes are opened for.

  Main results:
    * `mem_scopes_iff`      — the language of scopes by their pieces.
    * `mem_stems_iff`       — the language of file stems by their characters.
    * `scope_renderContext` — an accepted scope is written out piece by piece.
    * `diagnostics_exact`   — what is accepted, and what is reported otherwise.
-/
import AssetEmbed.Proofs.Acceptance
import AssetEmbed.Settings.Validation
import Mathlib.Computability.Language

namespace AssetEmbed.Settings

open scoped Computability

/-! ## §1. Grammars. -/

/-- A letter of ASCII. -/
def IsLetter (c : Char) : Prop := ('A' ≤ c ∧ c ≤ 'Z') ∨ ('a' ≤ c ∧ c ≤ 'z')

def IsDecimal (c : Char) : Prop := '0' ≤ c ∧ c ≤ '9'

/-- A character of `[A-Za-z_]`. -/
def IsFirst (c : Char) : Prop := IsLetter c ∨ c = '_'

/-- A character of `[A-Za-z0-9_]`. -/
def IsInner (c : Char) : Prop := IsLetter c ∨ IsDecimal c ∨ c = '_'

/-- A character of `[A-Za-z0-9_.-]`. -/
def IsStemInner (c : Char) : Prop := IsInner c ∨ c = '.' ∨ c = '-'

/-- The words of one character. -/
def oneOf (p : Char → Prop) : Language Char := {w | ∃ c, p c ∧ w = [c]}

/-- `[A-Za-z_][A-Za-z0-9_]*` -/
def identifiers : Language Char := oneOf IsFirst * (oneOf IsInner)∗

/-- Identifiers with `::` between them. -/
def scopes : Language Char := identifiers * ({[':', ':']} * identifiers)∗

/-- `[A-Za-z0-9_][A-Za-z0-9_.-]*` -/
def stems : Language Char := oneOf IsInner * (oneOf IsStemInner)∗

/-- Whether characters are an identifier: there are some, each of which one can
hold, and the first is no digit. -/
structure IsIdentifier (cs : List Char) : Prop where
  ne_nil : cs ≠ []
  inner : ∀ c ∈ cs, IsInner c
  head : ∀ c ∈ cs.head?, ¬ IsDecimal c

/-- Whether characters are a file stem: there are some, each of which one can
hold, and the first is neither a dot nor a dash. -/
structure IsFileStem (cs : List Char) : Prop where
  ne_nil : cs ≠ []
  inner : ∀ c ∈ cs, IsStemInner c
  head : cs.head? ≠ some '.' ∧ cs.head? ≠ some '-'

/-! ## §2. Words of the grammars. -/

section
variable {p q : Char → Prop} {c : Char} {cs : List Char}

theorem mem_oneOf : cs ∈ oneOf p ↔ ∃ c, p c ∧ cs = [c] := Iff.rfl

theorem mem_kstar_oneOf : cs ∈ (oneOf p)∗ ↔ ∀ c ∈ cs, p c := by
  rw [Language.mem_kstar]
  constructor
  · rintro ⟨words, rfl, hwords⟩ c hc
    obtain ⟨word, hword, hc⟩ := List.mem_flatten.1 hc
    obtain ⟨d, hd, rfl⟩ := mem_oneOf.1 (hwords word hword)
    rwa [List.mem_singleton.1 hc]
  · intro h
    refine ⟨cs.map fun c => [c], (List.flatMap_singleton' cs).symm, fun word hword => ?_⟩
    obtain ⟨c, hc, rfl⟩ := List.mem_map.1 hword
    exact ⟨c, h c hc, rfl⟩

/-- A first character and others after it. -/
theorem mem_oneOf_mul_kstar :
    cs ∈ oneOf p * (oneOf q)∗ ↔ ∃ c rest, cs = c :: rest ∧ p c ∧ ∀ d ∈ rest, q d := by
  rw [Language.mem_mul]
  constructor
  · rintro ⟨first, hfirst, rest, hrest, rfl⟩
    obtain ⟨c, hc, rfl⟩ := mem_oneOf.1 hfirst
    exact ⟨c, rest, rfl, hc, mem_kstar_oneOf.1 hrest⟩
  · rintro ⟨c, rest, rfl, hc, hrest⟩
    exact ⟨[c], ⟨c, hc, rfl⟩, rest, mem_kstar_oneOf.2 hrest, rfl⟩

theorem isAlpha_iff : c.isAlpha = true ↔ IsLetter c := by
  have hlower : c.isLower = true ↔ 'a' ≤ c ∧ c ≤ 'z' := by
    show (decide _ && decide _) = true ↔ _
    rw [Bool.and_eq_true, decide_eq_true_eq, decide_eq_true_eq]
    exact Iff.rfl
  show (c.isUpper || c.isLower) = true ↔ _
  rw [Bool.or_eq_true, isUpper_iff, hlower, IsLetter]

theorem isDigit_iff : c.isDigit = true ↔ IsDecimal c := by
  rw [Char.isDigit, Bool.and_eq_true, decide_eq_true_eq, decide_eq_true_eq]
  exact Iff.rfl

theorem isStart_iff : Identifier.isStart c = true ↔ IsFirst c := by
  rw [Identifier.isStart, Bool.or_eq_true, isAlpha_iff, beq_iff_eq, IsFirst]

theorem isPart_iff : Identifier.isPart c = true ↔ IsInner c := by
  rw [Identifier.isPart, Char.isAlphanum, Bool.or_eq_true, Bool.or_eq_true, isAlpha_iff,
    isDigit_iff, beq_iff_eq, or_assoc, IsInner]

theorem isStemPart_iff : isStemPart c = true ↔ IsStemInner c := by
  rw [isStemPart, Bool.or_eq_true, Bool.or_eq_true, isPart_iff, beq_iff_eq, beq_iff_eq, or_assoc,
    IsStemInner]

/-- A letter comes after the digits. -/
theorem IsFirst.not_isDecimal (h : IsFirst c) : ¬ IsDecimal c := by
  rintro ⟨-, hnine⟩
  rcases h with (⟨hupper, -⟩ | ⟨hlower, -⟩) | rfl
  · exact absurd (Char.le_trans hupper hnine) (by decide)
  · exact absurd (Char.le_trans hlower hnine) (by decide)
  · exact absurd hnine (by decide)

theorem isFirst_iff : IsFirst c ↔ IsInner c ∧ ¬ IsDecimal c := by
  constructor
  · intro h
    exact ⟨h.imp_right .inr, h.not_isDecimal⟩
  · rintro ⟨hletter | hdigit | hunderscore, hnot⟩
    · exact .inl hletter
    · exact absurd hdigit hnot
    · exact .inr hunderscore

theorem isInner_iff : IsInner c ↔ IsStemInner c ∧ c ≠ '.' ∧ c ≠ '-' := by
  constructor
  · intro h
    have hpart := isPart_iff.2 h
    refine ⟨.inl h, ?_, ?_⟩
    · rintro rfl
      exact absurd hpart (by decide)
    · rintro rfl
      exact absurd hpart (by decide)
  · rintro ⟨h | hdot | hdash, hnotDot, hnotDash⟩
    · exact h
    · exact absurd hdot hnotDot
    · exact absurd hdash hnotDash

theorem mem_identifiers_iff : cs ∈ identifiers ↔ IsIdentifier cs := by
  rw [identifiers, mem_oneOf_mul_kstar]
  constructor
  · rintro ⟨c, rest, rfl, hc, hrest⟩
    refine ⟨List.cons_ne_nil c rest, List.forall_mem_cons.2 ⟨(isFirst_iff.1 hc).1, hrest⟩, ?_⟩
    rintro d ⟨⟩
    exact (isFirst_iff.1 hc).2
  · rintro ⟨hne, hinner, hhead⟩
    obtain ⟨c, rest, rfl⟩ := List.exists_cons_of_ne_nil hne
    obtain ⟨hc, hrest⟩ := List.forall_mem_cons.1 hinner
    exact ⟨c, rest, rfl, isFirst_iff.2 ⟨hc, hhead c rfl⟩, hrest⟩

/-- The language of file stems by their characters. -/
theorem mem_stems_iff : cs ∈ stems ↔ IsFileStem cs := by
  rw [stems, mem_oneOf_mul_kstar]
  constructor
  · rintro ⟨c, rest, rfl, hc, hrest⟩
    obtain ⟨hstem, hdot, hdash⟩ := isInner_iff.1 hc
    exact ⟨List.cons_ne_nil c rest, List.forall_mem_cons.2 ⟨hstem, hrest⟩,
      fun h => hdot (Option.some.inj h), fun h => hdash (Option.some.inj h)⟩
  · rintro ⟨hne, hinner, hdot, hdash⟩
    obtain ⟨c, rest, rfl⟩ := List.exists_cons_of_ne_nil hne
    obtain ⟨hc, hrest⟩ := List.forall_mem_cons.1 hinner
    refine ⟨c, rest, rfl, isInner_iff.2 ⟨hc, fun h => hdot ?_, fun h => hdash ?_⟩, hrest⟩
    · rw [h, List.head?_cons]
    · rw [h, List.head?_cons]

theorem isIdentifier_iff : Identifier.isIdentifier cs = true ↔ cs ∈ identifiers := by
  rw [identifiers, mem_oneOf_mul_kstar]
  cases cs with
  | nil => simp [Identifier.isIdentifier]
  | cons c rest => simp [Identifier.isIdentifier, isStart_iff, isPart_iff]

theorem isStem_iff : isStem cs = true ↔ cs ∈ stems := by
  rw [stems, mem_oneOf_mul_kstar]
  cases cs with
  | nil => simp [isStem]
  | cons c rest => simp [isStem, isPart_iff, isStemPart_iff]

end

/-! ## §3. Scopes. -/

section
variable {cs : List Char}

/-- Pieces with `::` in front of each. -/
def joined (pieces : List (List Char)) : List Char :=
  pieces.flatMap fun piece => [':', ':'] ++ piece

/-- What the pieces were split from. -/
theorem splitScope_spec (cs : List Char) :
    ∃ first rest, splitScope cs = first :: rest ∧ cs = first ++ joined rest := by
  fun_induction splitScope cs with
  | case1 => exact ⟨[], [], rfl, rfl⟩
  | case2 cs ih =>
    obtain ⟨first, rest, hsplit, rfl⟩ := ih
    exact ⟨[], first :: rest, by rw [hsplit], rfl⟩
  | case3 c cs _ piece pieces hpieces ih =>
    obtain ⟨first, rest, hsplit, rfl⟩ := ih
    rw [hpieces] at hsplit
    cases hsplit
    exact ⟨c :: piece, pieces, rfl, rfl⟩
  | case4 c cs _ hnil => exact absurd hnil (splitScope_ne_nil cs)

theorem splitScope_cons {c : Char} (hc : c ≠ ':') {first : List Char} {rest : List (List Char)}
    (h : splitScope cs = first :: rest) : splitScope (c :: cs) = (c :: first) :: rest := by
  rw [splitScope, h]
  rintro others rfl
  exact absurd rfl hc

/-- A piece without a colon ends at the next `::`. -/
theorem splitScope_append {piece : List Char} (h : ':' ∉ piece) (pieces : List (List Char))
    (hpieces : ∀ p ∈ pieces, ':' ∉ p) : splitScope (piece ++ joined pieces) = piece :: pieces := by
  induction piece with
  | nil =>
    cases pieces with
    | nil => rfl
    | cons next others =>
      obtain ⟨hnext, hothers⟩ := List.forall_mem_cons.1 hpieces
      show [] :: splitScope (next ++ joined others) = _
      rw [splitScope_append hnext others hothers]
  | cons c rest ih =>
    rw [List.mem_cons, not_or] at h
    exact splitScope_cons (Ne.symm h.1) (ih h.2)
termination_by pieces.length

theorem IsIdentifier.colon_notMem (h : IsIdentifier cs) : ':' ∉ cs := by
  intro hm
  exact absurd (isPart_iff.2 (h.inner ':' hm)) (by decide)

theorem mem_kstar_colons {cs : List Char} : cs ∈ ({[':', ':']} * identifiers)∗
    ↔ ∃ pieces, cs = joined pieces ∧ ∀ piece ∈ pieces, IsIdentifier piece := by
  rw [Language.mem_kstar]
  constructor
  · rintro ⟨words, rfl, hwords⟩
    induction words with
    | nil => exact ⟨[], rfl, by simp⟩
    | cons word rest ih =>
      obtain ⟨hword, hrest⟩ := List.forall_mem_cons.1 hwords
      obtain ⟨colons, hcolons, piece, hpiece, rfl⟩ := Language.mem_mul.1 hword
      obtain ⟨pieces, hpieces, hall⟩ := ih hrest
      refine ⟨piece :: pieces, ?_, List.forall_mem_cons.2 ⟨mem_identifiers_iff.1 hpiece, hall⟩⟩
      rw [List.flatten_cons, hpieces, Set.mem_singleton_iff.1 hcolons]
      rfl
  · rintro ⟨pieces, rfl, hall⟩
    refine ⟨pieces.map fun piece => [':', ':'] ++ piece, rfl, fun word hword => ?_⟩
    obtain ⟨piece, hpiece, rfl⟩ := List.mem_map.1 hword
    exact Language.append_mem_mul rfl (mem_identifiers_iff.2 (hall piece hpiece))

/-- The language of scopes by their pieces. -/
theorem mem_scopes_iff : cs ∈ scopes ↔ ∀ piece ∈ splitScope cs, IsIdentifier piece := by
  rw [scopes, Language.mem_mul]
  constructor
  · rintro ⟨first, hfirst, others, hothers, rfl⟩
    rw [mem_identifiers_iff] at hfirst
    obtain ⟨pieces, rfl, hpieces⟩ := mem_kstar_colons.1 hothers
    -- no identifier holds a colon, so the pieces are those that were put together
    rw [splitScope_append hfirst.colon_notMem pieces fun p hp => (hpieces p hp).colon_notMem]
    exact List.forall_mem_cons.2 ⟨hfirst, hpieces⟩
  · intro h
    obtain ⟨first, rest, hsplit, hcs⟩ := splitScope_spec cs
    rw [hsplit] at h
    obtain ⟨hfirst, hrest⟩ := List.forall_mem_cons.1 h
    exact ⟨first, mem_identifiers_iff.2 hfirst, joined rest, mem_kstar_colons.2 ⟨rest, rfl, hrest⟩,
      hcs.symm⟩

theorem forall_mem_scopePieces {scope : String} {p : List Char → Prop} :
    (∀ piece ∈ scopePieces scope, p piece.toList) ↔ ∀ piece ∈ splitScope scope.toList, p piece := by
  simp [scopePieces]

theorem isScope_iff {scope : String} : isScope scope = true ↔ scope.toList ∈ scopes := by
  rw [isScope, List.all_eq_true, mem_scopes_iff]
  exact forall₂_congr fun piece _ => isIdentifier_iff.trans mem_identifiers_iff

/-- Its pieces make up a scope. -/
theorem intercalate_scopePieces (scope : String) :
    String.intercalate "::" (scopePieces scope) = scope := by
  obtain ⟨first, rest, hsplit, hscope⟩ := splitScope_spec scope.toList
  have hjoin : ∀ first rest, (String.intercalate "::" (String.ofList first
      :: rest.map String.ofList)).toList = first ++ joined rest := by
    intro first rest
    induction rest generalizing first with
    | nil => simp [joined]
    | cons piece others ih =>
      rw [List.map_cons, String.intercalate_cons_cons, String.toList_append, String.toList_append,
        ih, String.toList_ofList]
      simp [joined]
  rw [scopePieces, hsplit, List.map_cons, ← String.toList_inj, hjoin, hscope]

end

/-! ## §4. Problems. -/

variable {s : Settings}

/-- Whether settings can be used. -/
structure Acceptable (s : Settings) : Prop where
  identifiers : ∀ piece ∈ scopePieces s.scope, IsIdentifier piece.toList
  unreserved : ∀ piece ∈ scopePieces s.scope, ¬ Reserved s.target piece
  indexName : IsFileStem s.indexName.toList
  bytesPerLine : 1 ≤ s.bytesPerLine
  outputDir : ¬ s.webDir.components <+: s.outputDir.components

/-- Whether a check reports one problem of its field if it fails, and none if it
is passed. -/
structure Reports (passed : Prop) (field : String) (problems : List Diagnostic) : Prop where
  nothing : passed → problems = []
  problem : ¬ passed → ∃ d, problems = [d] ∧ d.field = field

/-- Whether a problem is that a piece of the scope is reserved. -/
structure SaysReserved (target : Target) (piece : String) (d : Diagnostic) : Prop where
  field : d.field = "bundle.namespace"
  message : d.message
    = [.plain ("`" ++ piece ++ "` is reserved in " ++ target.label ++ " output")]

/-- Whether problems are those of the scope: one if it is malformed, and one for
each piece that is reserved otherwise. -/
structure ReportsScope (s : Settings) (problems : List Diagnostic) : Prop where
  malformed : s.scope.toList ∉ scopes → ∃ d, problems = [d] ∧ d.field = "bundle.namespace"
  reserved : s.scope.toList ∈ scopes → List.Forall₂ (SaysReserved s.target)
    ((scopePieces s.scope).filter s.target.isReserved) problems

theorem Reports.eq_nil_iff {passed : Prop} {field : String} {problems : List Diagnostic}
    (h : Reports passed field problems) : problems = [] ↔ passed := by
  refine ⟨fun hnil => ?_, h.nothing⟩
  by_contra hfailed
  obtain ⟨d, hd, -⟩ := h.problem hfailed
  rw [hd] at hnil
  cases hnil

theorem ReportsScope.eq_nil_iff {problems : List Diagnostic} (h : ReportsScope s problems) :
    problems = [] ↔ (∀ piece ∈ scopePieces s.scope, IsIdentifier piece.toList)
      ∧ ∀ piece ∈ scopePieces s.scope, ¬ Reserved s.target piece := by
  rw [forall_mem_scopePieces, ← mem_scopes_iff]
  by_cases hscope : s.scope.toList ∈ scopes
  · have hforall := h.reserved hscope
    have hnil : problems = [] ↔ (scopePieces s.scope).filter s.target.isReserved = [] := by
      rw [← List.length_eq_zero_iff, ← hforall.length_eq, List.length_eq_zero_iff]
    rw [hnil, List.filter_eq_nil_iff, and_iff_right hscope]
    exact forall₂_congr fun piece _ => not_congr (isReserved_iff s.target piece)
  · obtain ⟨d, rfl, -⟩ := h.malformed hscope
    exact ⟨fun hnil => absurd hnil (List.cons_ne_nil d []), fun hall => absurd hall.1 hscope⟩

theorem reportsScope_scopeProblems (s : Settings) : s.ReportsScope s.scopeProblems := by
  unfold scopeProblems
  split
  · next h =>
    rw [isScope_iff] at h
    refine ⟨fun hmalformed => absurd h hmalformed, fun _ => ?_⟩
    exact List.forall₂_map_right_iff.2 (List.forall₂_same.2 fun piece _ => ⟨rfl, rfl⟩)
  · next h =>
    rw [isScope_iff] at h
    exact ⟨fun _ => ⟨_, rfl, rfl⟩, fun hscope => absurd hscope h⟩

theorem reports_indexNameProblems (s : Settings) :
    Reports (s.indexName.toList ∈ stems) "bundle.index_name" s.indexNameProblems := by
  unfold indexNameProblems
  split
  · next h => exact ⟨fun _ => rfl, fun hfailed => absurd (isStem_iff.1 h) hfailed⟩
  · next h => exact ⟨fun hpassed => absurd (isStem_iff.2 hpassed) h, fun _ => ⟨_, rfl, rfl⟩⟩

theorem reports_bytesPerLineProblems (s : Settings) :
    Reports (1 ≤ s.bytesPerLine) "bundle.bytes_per_line" s.bytesPerLineProblems := by
  unfold bytesPerLineProblems
  split
  · next h => exact ⟨fun hpassed => by omega, fun _ => ⟨_, rfl, rfl⟩⟩
  · next h => exact ⟨fun _ => rfl, fun hfailed => by omega⟩

theorem reports_outputDirProblems (s : Settings) :
    Reports (¬ s.webDir.components <+: s.outputDir.components) "bundle.output_dir"
      s.outputDirProblems := by
  rw [← List.isPrefixOf_iff_prefix]
  unfold outputDirProblems Path.startsWith
  split
  · next h => exact ⟨fun hpassed => absurd h hpassed, fun _ => ⟨_, rfl, rfl⟩⟩
  · next h => exact ⟨fun _ => rfl, fun hfailed => absurd h hfailed⟩

/-- An accepted scope is written out piece by piece, with the fixed one inside. -/
theorem scope_renderContext (h : isScope s.scope = true) :
    s.renderContext.enclosing = scopePieces s.scope
      ∧ s.renderContext.scope = scopePieces s.scope ++ [bundleModule] := by
  rw [isScope_iff, mem_scopes_iff] at h
  -- no piece of it is empty
  have hfull : (scopePieces s.scope).filter (· != "") = scopePieces s.scope := by
    refine List.filter_eq_self.2 fun piece hp => bne_iff_ne.2 ?_
    rintro rfl
    exact (forall_mem_scopePieces.2 h "" hp).ne_nil rfl
  exact ⟨hfull, congrArg (· ++ [bundleModule]) hfull⟩

/-- Settings are accepted just if all checks are passed.  Otherwise the problems
are those of the checks that fail, in the order of the checks, and none of them
hides another.  The scopes of an accepted namespace are its pieces. -/
theorem diagnostics_exact (s : Settings) :
    (s.diagnostics = [] ↔ s.Acceptable)
      ∧ (∃ ofScope ofIndexName ofBytesPerLine ofOutputDir,
        s.diagnostics = ofScope ++ ofIndexName ++ ofBytesPerLine ++ ofOutputDir
          ∧ s.ReportsScope ofScope
          ∧ Reports (s.indexName.toList ∈ stems) "bundle.index_name" ofIndexName
          ∧ Reports (1 ≤ s.bytesPerLine) "bundle.bytes_per_line" ofBytesPerLine
          ∧ Reports (¬ s.webDir.components <+: s.outputDir.components) "bundle.output_dir"
              ofOutputDir)
      ∧ (s.scope.toList ∈ scopes ↔ ∀ piece ∈ scopePieces s.scope, IsIdentifier piece.toList)
      ∧ (s.indexName.toList ∈ stems ↔ IsFileStem s.indexName.toList)
      ∧ (s.scopeProblems = [] →
        s.renderContext.enclosing = scopePieces s.scope
          ∧ s.renderContext.scope = scopePieces s.scope ++ ["web_bundle"]
          ∧ String.intercalate "::" s.renderContext.scope = s.scope ++ "::web_bundle") := by
  have hscope := reportsScope_scopeProblems s
  have hindex := reports_indexNameProblems s
  have hbytes := reports_bytesPerLineProblems s
  have houtput := reports_outputDirProblems s
  refine ⟨?_, ⟨_, _, _, _, rfl, hscope, hindex, hbytes, houtput⟩, ?_, mem_stems_iff,
    fun hnone => ?_⟩
  · unfold diagnostics
    rw [List.append_eq_nil_iff, List.append_eq_nil_iff, List.append_eq_nil_iff, hscope.eq_nil_iff,
      hindex.eq_nil_iff, hbytes.eq_nil_iff, houtput.eq_nil_iff, mem_stems_iff]
    constructor
    · rintro ⟨⟨⟨⟨hidentifiers, hunreserved⟩, hstem⟩, hpositive⟩, hapart⟩
      exact ⟨hidentifiers, hunreserved, hstem, hpositive, hapart⟩
    · rintro ⟨hidentifiers, hunreserved, hstem, hpositive, hapart⟩
      exact ⟨⟨⟨⟨hidentifiers, hunreserved⟩, hstem⟩, hpositive⟩, hapart⟩
  · rw [mem_scopes_iff, forall_mem_scopePieces]
  · have hidentifiers := (hscope.eq_nil_iff.1 hnone).1
    rw [forall_mem_scopePieces, ← mem_scopes_iff, ← isScope_iff] at hidentifiers
    obtain ⟨henclosing, hall⟩ := scope_renderContext hidentifiers
    refine ⟨henclosing, hall, ?_⟩
    have hne : scopePieces s.scope ≠ [] := fun hnil =>
      splitScope_ne_nil _ (List.map_eq_nil_iff.1 hnil)
    rw [hall, String.intercalate_append_of_ne_nil hne (by simp), intercalate_scopePieces,
      String.intercalate_singleton, String.append_assoc]
    rfl

/-- A scope of two names is accepted and opened around the fixed one. -/
theorem diagnostics_exact_nested :
    ({ Settings.default with scope := "acme::web" }.scopeProblems = [])
      ∧ String.intercalate "::" { Settings.default with scope := "acme::web" }.renderContext.scope
        = "acme::web::web_bundle" := by
  have hnone : { Settings.default with scope := "acme::web" }.scopeProblems = [] := by decide
  exact ⟨hnone, ((diagnostics_exact { Settings.default with scope := "acme::web" }).2.2.2.2
    hnone).2.2⟩

end AssetEmbed.Settings
