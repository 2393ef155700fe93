/-
  AssetEmbed.Proofs.Reading.Containment — paths in the comments of generated
  files.

  Paths are written into comments as they are.  A path stays there if it and
  the line feed after it are one logical line of the target; then the program
  is the same as with empty comments.  A path with a line feed breaks out.  One
  that ends in a backslash would swallow the next line of C++, but the names
  that are made from it are reserved there.

  Main results:
    * `isOneComment_iff`    — which texts after `//` are one comment.
    * `sameProgram_mute`    — what is written into contained comments does not
      matter to the program.
    * `contained_iff`       — all files of a bundle keep the paths inside their
      comments just if no path holds a line feed.
-/
import AssetEmbed.Proofs.Reading.RoundTrip
import Mathlib.Tactic.ByContra

namespace AssetEmbed.Reading

open Layout

variable {target : Target}

/-! ## §1. One comment. -/

/-- Whether a line is one comment: of the line and the line feed after it only
the line feed is left, whatever follows. -/
def IsOneComment (target : Target) (line : String) : Prop :=
  ∀ rest, program target (line.toList ++ '\n' :: rest) = '\n' :: program target rest

/-- Text from the start of which nothing is passed on ends in a comment, or
where one may begin. -/
theorem silent_end {k k' : Place} {cs : List Char} (hk : k = .slash ∨ k = .comment)
    (h : transduce uncomment k cs = (k', [])) : k' = .slash ∨ k' = .comment := by
  induction cs generalizing k with
  | nil =>
    cases h
    exact hk
  | cons c rest ih =>
    simp only [transduce, Prod.mk.injEq, List.append_eq_nil_iff] at h
    obtain ⟨hk', hout, hrest⟩ := h
    -- a step that passes nothing on stays on the way into a comment
    refine ih (k := (uncomment k c).1) ?_ (Prod.ext hk' hrest)
    rcases hk with rfl | rfl
    · simp only [uncomment] at hout ⊢
      split at hout
      · next hc => simp [hc]
      · split at hout <;> cases hout
    · simp only [uncomment] at hout ⊢
      split at hout
      · cases hout
      · next hc => simp [hc]

theorem silent_end_of_code {k' : Place} {cs : List Char} (hne : cs ≠ [])
    (h : transduce uncomment .code cs = (k', [])) : k' = .slash ∨ k' = .comment := by
  cases cs with
  | nil => exact absurd rfl hne
  | cons c rest =>
    simp only [transduce, Prod.mk.injEq, List.append_eq_nil_iff] at h
    obtain ⟨hk', hout, hrest⟩ := h
    refine silent_end (k := (uncomment .code c).1) ?_ (Prod.ext hk' hrest)
    simp only [uncomment] at hout ⊢
    split at hout
    · next hc => simp [hc]
    · split at hout <;> cases hout

/-- Text that can stand in front of nothing, and of a mark, without changing
what is left of them is empty. -/
theorem eq_nil_of_transparent {cs : List Char} (hnil : uncommented .code cs = [])
    (hmark : uncommented .code (cs ++ [';']) = [';']) : cs = [] := by
  by_contra hne
  obtain ⟨hout, hpending⟩ := List.append_eq_nil_iff.1 hnil
  have hsilent : transduce uncomment .code cs = ((transduce uncomment .code cs).1, []) :=
    Prod.ext rfl hout
  -- A slash is still left of the text, and a comment swallows the mark.
  rcases silent_end_of_code hne hsilent with hk | hk
  · rw [hk] at hpending
    cases hpending
  · unfold uncommented at hmark
    rw [transduce_append, hsilent, hk] at hmark
    cases hmark

theorem uncommented_comment (cs : List Char) :
    uncommented .comment cs = uncommented .comment (cs.dropWhile (· != '\n')) := by
  unfold uncommented
  rw [transduce_comment]

/-- Where a line is one comment, only its line feed is left of what stands
after the slashes. -/
theorem uncommented_of_isOneComment {line : String} {comment : List Char}
    (hline : line.toList = '/' :: '/' :: comment) (h : IsOneComment target line)
    (rest : List Char) :
    uncommented .comment (logical target (comment ++ ['\n']) ++ logical target rest)
      = '\n' :: program target rest := by
  have hchars : line.toList ++ '\n' :: rest = ['/', '/'] ++ ((comment ++ ['\n']) ++ rest) := by
    rw [hline]
    simp
  have hlogical : logical target (line.toList ++ '\n' :: rest)
      = ['/', '/'] ++ (logical target (comment ++ ['\n']) ++ logical target rest) := by
    rw [hchars, logical_append (by decide), logical_eq_self (show '\n' ∉ ['/', '/'] by decide),
      logical_append (getLast?_line comment)]
  have hrest := h rest
  unfold program at hrest
  rw [hlogical] at hrest
  exact hrest

theorem oneLine_of_isOneComment {line : String} {comment : List Char}
    (hline : line.toList = '/' :: '/' :: comment) (h : IsOneComment target line) :
    OneLine target comment := by
  have hleft := uncommented_of_isOneComment hline h
  have hnil : logical target [] = [] := by cases target <;> rfl
  have hmark : logical target [';'] = [';'] := by cases target <;> rfl
  cases hd : (logical target (comment ++ ['\n'])).dropWhile (· != '\n') with
  | nil =>
    -- the comment would not end
    have hnone := hleft []
    rw [hnil, List.append_nil, uncommented_comment, hd] at hnone
    cases hnone
  | cons c after =>
    have hc : c = '\n' := by
      have hhead := List.head?_dropWhile_not (· != '\n') (logical target (comment ++ ['\n']))
      rw [hd] at hhead
      simpa using hhead
    -- what stands after the line feed is program text, with any text behind it
    have hafter : ∀ rest, uncommented .code (after ++ logical target rest)
        = program target rest := by
      intro rest
      have hrest := hleft rest
      rw [uncommented_comment, List.dropWhile_append, hd, hc] at hrest
      exact (List.cons.inj hrest).2
    -- so nothing stands there
    have hempty : after = [] := by
      refine eq_nil_of_transparent ?_ ?_
      · have hnone := hafter []
        rwa [hnil, List.append_nil, program_nil] at hnone
      · have hone := hafter [';']
        unfold program at hone
        rw [hmark] at hone
        exact hone
    unfold OneLine
    rw [hd, hc, hempty]

/-- A text after `//` makes one comment just if it is one line. -/
theorem isOneComment_iff {line : String} {comment : List Char}
    (hline : line.toList = '/' :: '/' :: comment) :
    IsOneComment target line ↔ OneLine target comment := by
  refine ⟨oneLine_of_isOneComment hline, fun h rest => ?_⟩
  obtain ⟨hclosed, hprogram⟩ := Kept.nil.comment h
  have hsplit : line.toList ++ '\n' :: rest
      = ([] ++ '/' :: '/' :: comment ++ ['\n']) ++ rest := by
    rw [hline]
    simp
  rw [hsplit, program_append hclosed, hprogram]
  rfl

/-! ## §2. Files with empty comments. -/

/-- A declaration with nothing in its comment. -/
def muteDeclaration : Declaration → Declaration
  | .comment _ => .comment ""
  | d => d

/-- The kind of a file, without the path that it was made from. -/
def muteKind : UnitKind → UnitKind
  | .asset _ => .asset ""
  | .index => .index

/-- A file with nothing in the comments that come from paths. -/
def mute (u : SourceUnit) : SourceUnit :=
  ⟨u.stem, muteKind u.kind, u.declarations.map muteDeclaration⟩

/-- The comment lines that come from paths. -/
def pathComments (u : SourceUnit) : List String :=
  (match u.kind with
    | .asset source => ["// Generated from " ++ source]
    | .index => [])
    ++ u.declarations.filterMap fun
      | .comment text => some ("// " ++ text)
      | _ => none

/-- Whether the paths in the comments of a file stay there: each of the lines
is one comment, and the program is the same as with empty comments. -/
structure Contained (target : Target) (ctx : RenderContext) (u : SourceUnit) : Prop where
  comments : ∀ line ∈ pathComments u, IsOneComment target line
  code : program target (target.render u ctx).toList
    = program target (target.render (mute u) ctx).toList

theorem accessors?_mute (u : SourceUnit) : (mute u).accessors? = u.accessors? := by
  unfold SourceUnit.accessors? mute
  rw [List.findSome?_map]
  congr 1
  funext d
  cases d <;> rfl

theorem includes_mute (u : SourceUnit) : (mute u).includes = u.includes := by
  unfold SourceUnit.includes mute
  rw [List.filterMap_map]
  congr 1
  funext d
  cases d <;> rfl

theorem body_mute (u : SourceUnit) : (mute u).body = u.body.map muteDeclaration := by
  unfold SourceUnit.body mute
  rw [List.filter_map]
  congr 2
  funext d
  cases d <;> rfl

theorem oneLine_nil : OneLine target [] := by
  cases target <;> decide

/-- Heading comments, whatever they say. -/
theorem sameProgram_heading {text : String} (h : OneLine target text.toList) :
    SameProgram target [.line ("// " ++ text)] [.line ("// " ++ "")] :=
  .comments (toList_headingLine text) (oneLine_headingLine.2 h) (toList_headingLine "")
    (oneLine_headingLine.2 oneLine_nil)

/-- The second comment of a file, whatever path it shows. -/
theorem sameProgram_provenance {u : SourceUnit} (h : Legible target u) :
    SameProgram target [.line u.kind.provenance] [.line (muteKind u.kind).provenance] := by
  have hp := h.provenance
  cases hk : u.kind with
  | asset source =>
    exact .comments (toList_provenanceLine source) (oneLine_provenanceLine.2 (hp source hk))
      (toList_provenanceLine "") (oneLine_provenanceLine.2 oneLine_nil)
  | index => exact (reads_comment (by rfl)).same

/-- Declarations one by one, with blank lines between groups. -/
theorem sameProgram_groups {ds : List Declaration} {ops : Declaration → List Op}
    (h : ∀ d ∈ ds, SameProgram target (ops d) (ops (muteDeclaration d))) :
    SameProgram target (ds.flatMap fun d => (if d.startsGroup then [Op.blank] else []) ++ ops d)
      ((ds.map muteDeclaration).flatMap fun d =>
        (if d.startsGroup then [Op.blank] else []) ++ ops d) := by
  rw [List.flatMap_map]
  refine .flatMap fun d hd => ?_
  have hgroup : (muteDeclaration d).startsGroup = d.startsGroup := by cases d <;> rfl
  have hblank : SameProgram target (if d.startsGroup then [Op.blank] else [])
      (if d.startsGroup then [Op.blank] else []) := by
    split
    · exact Reads.blank.same
    · exact Reads.nil.same
  rw [hgroup]
  exact hblank.append (h d hd)

/-! ## §3. C++. -/

theorem sameProgram_cppDeclaration (ctx : RenderContext) {d : Declaration}
    (h : LegibleDeclaration .cpp d) :
    SameProgram .cpp (CppHeader.declaration ctx d)
      (CppHeader.declaration ctx (muteDeclaration d)) := by
  cases d with
  | comment text => exact sameProgram_heading h
  | bytes _ _ | text _ _ | «include» _ | accessors _ => exact (Cpp.reads_declaration ctx h).same

theorem sameProgram_cppLayout {u : SourceUnit} {ctx : RenderContext} (hl : Legible .cpp u)
    (hs : ∀ name ∈ ctx.scope, IsWord name.toList) :
    SameProgram .cpp (CppHeader.layout u ctx) (CppHeader.layout (mute u) ctx) := by
  have hdeclarations : ∀ d ∈ u.body, LegibleDeclaration .cpp d :=
    fun d hd => hl.declarations d (List.mem_filter.1 hd).1
  have hbody : SameProgram .cpp (CppHeader.body ctx u.body) (CppHeader.body ctx (mute u).body) := by
    rw [body_mute]
    cases hb : u.body with
    | nil => exact Reads.nil.same
    | cons first others =>
      rw [hb] at hdeclarations
      obtain ⟨hfirst, hothers⟩ := List.forall_mem_cons.1 hdeclarations
      exact (sameProgram_cppDeclaration ctx hfirst).append
        (sameProgram_groups fun d hd => sameProgram_cppDeclaration ctx (hothers d hd))
  -- the inclusions and the accessors are not muted
  have hbefore : Cpp.before (mute u) ctx = Cpp.before u ctx := by
    unfold Cpp.before
    rw [accessors?_mute, includes_mute]
  rw [Cpp.layout_eq, Cpp.layout_eq, hbefore]
  -- only the second comment and the headings of assets differ
  exact (SameProgram.append reads_notice.same (sameProgram_provenance hl)).append <|
    (Cpp.reads_before hl hs).same.append <| hbody.append (Cpp.reads_after hs).same

/-! ## §4. Rust. -/

theorem sameProgram_rustDeclaration (ctx : RenderContext) {d : Declaration}
    (h : LegibleDeclaration .rust d) :
    SameProgram .rust (RustModule.declaration ctx d)
      (RustModule.declaration ctx (muteDeclaration d)) := by
  cases d with
  | comment text => exact sameProgram_heading h
  | bytes _ _ | text _ _ | «include» _ | accessors _ => exact (Rust.reads_declaration ctx h).same

theorem sameProgram_rustBody {u : SourceUnit} {ctx : RenderContext} (hl : Legible .rust u) :
    SameProgram .rust (RustModule.body u ctx) (RustModule.body (mute u) ctx) := by
  have hdeclarations : ∀ d ∈ u.body, LegibleDeclaration .rust d :=
    fun d hd => hl.declarations d (List.mem_filter.1 hd).1
  have hincludes : Reads .rust
      (u.includes.map fun file => .line ("include!(" ++ UnicodeLiteral.quote file ++ ");"))
      (u.includes.flatMap Rust.inclusionTokens) := .map fun file _ => Rust.reads_inclusion file
  have hgap : SameProgram .rust (if u.includes.isEmpty then [] else [.blank])
      (if u.includes.isEmpty then [] else [.blank]) := by
    split
    · exact Reads.nil.same
    · exact Reads.blank.same
  unfold RustModule.body
  rw [includes_mute, body_mute]
  refine hincludes.same.append ?_
  cases hb : u.body with
  | nil => exact Reads.nil.same
  | cons first others =>
    rw [hb] at hdeclarations
    obtain ⟨hfirst, hothers⟩ := List.forall_mem_cons.1 hdeclarations
    exact (hgap.append (sameProgram_rustDeclaration ctx hfirst)).append
      (sameProgram_groups fun d hd => sameProgram_rustDeclaration ctx (hothers d hd))

theorem sameProgram_rustLayout {u : SourceUnit} {ctx : RenderContext} (hl : Legible .rust u)
    (hs : ∀ name ∈ ctx.scope, IsWord name.toList) :
    SameProgram .rust (RustModule.layout u ctx) (RustModule.layout (mute u) ctx) := by
  have hbefore : Rust.before ctx (mute u).kind = Rust.before ctx u.kind := by
    unfold mute
    cases u.kind <;> rfl
  have hafter : Rust.after ctx (mute u).kind = Rust.after ctx u.kind := by
    unfold mute
    cases u.kind <;> rfl
  rw [Rust.layout_eq, Rust.layout_eq, hbefore, hafter]
  exact (SameProgram.append reads_notice.same (sameProgram_provenance hl)).append <|
    (Rust.reads_before u hs).same.append <| (sameProgram_rustBody hl).append
      (Rust.reads_after u ctx).same

/-! ## §5. Bundles. -/

/-- What is written into contained comments does not matter to the program. -/
theorem sameProgram_mute {u : SourceUnit} {ctx : RenderContext} (hl : Legible target u)
    (hs : ∀ name ∈ ctx.scope, IsWord name.toList) :
    program target (target.render u ctx).toList
      = program target (target.render (mute u) ctx).toList := by
  cases target with
  | cpp => exact (sameProgram_cppLayout hl hs 0).2.2.1
  | rust => exact (sameProgram_rustLayout hl hs 0).2.2.1

theorem contained_of_legible {u : SourceUnit} {ctx : RenderContext} (hl : Legible target u)
    (hs : ∀ name ∈ ctx.scope, IsWord name.toList) : Contained target ctx u where
  code := sameProgram_mute hl hs
  comments := by
    intro line hline
    rcases List.mem_append.1 hline with hline | hline
    -- the second comment of the file
    · have hp := hl.provenance
      cases hk : u.kind with
      | asset source =>
        rw [hk, List.mem_singleton] at hline
        rw [hline]
        exact (isOneComment_iff (toList_provenanceLine source)).2
          (oneLine_provenanceLine.2 (hp source hk))
      | index =>
        rw [hk] at hline
        cases hline
    -- the headings of its assets
    · obtain ⟨d, hd, hdline⟩ := List.mem_filterMap.1 hline
      have hlegible := hl.declarations d hd
      cases d with
      | comment text =>
        cases hdline
        exact (isOneComment_iff (toList_headingLine text)).2 (oneLine_headingLine.2 hlegible)
      | bytes _ _ | text _ _ | «include» _ | accessors _ => cases hdline

/-- The heading comment of every asset stands in one of the files. -/
theorem exists_mem_pathComments (b : Bundle) (s : Settings) {a : Asset} (ha : a ∈ b.assets) :
    ∃ u ∈ units b s, "// " ++ ("Bundled file: " ++ a.path) ∈ pathComments u := by
  have hown : "// " ++ ("Bundled file: " ++ a.path) ∈ pathComments (assetUnit a) := by
    refine List.mem_append_right _ (List.mem_filterMap.2 ⟨_, List.mem_cons_self, rfl⟩)
  cases hm : s.mode with
  | combined =>
    refine ⟨indexUnit b s, by simp [units, hm], List.mem_append_right _ (List.mem_filterMap.2 ?_)⟩
    refine ⟨.comment ("Bundled file: " ++ a.path), List.mem_append_left _ ?_, rfl⟩
    unfold indexContent
    rw [hm]
    exact List.mem_flatMap.2 ⟨a, ha, List.mem_cons_self⟩
  | split => exact ⟨assetUnit a, by simp [units, hm]; exact .inl ⟨a, ha, rfl⟩, hown⟩

/-- All files of a bundle keep the paths inside their comments just if every
path, with a line feed after it, is one logical line of the target. -/
theorem contained_iff_oneLine {b : Bundle} {s : Settings} {us : List SourceUnit}
    (h : plan b s = .ok us) (hs : Settings.isScope s.scope = true) :
    (∀ u ∈ us, Contained s.target s.renderContext u)
      ↔ ∀ a ∈ b.assets, OneLine s.target a.path.toList := by
  have hus := (accepted_of_plan h).1
  subst hus
  constructor
  · intro hall a ha
    obtain ⟨u, hu, hline⟩ := exists_mem_pathComments b s ha
    have hone := (isOneComment_iff (toList_headingLine _)).1 ((hall u hu).comments _ hline)
    exact oneLine_heading.1 (oneLine_headingLine.1 hone)
  · intro hlines u hu
    exact contained_of_legible (legible_of_mem_units hlines hu) (isWord_scope hs)

/-! ## §6. Accepted names. -/

theorem hasDoubleUnderscore_tail {c : Char} {cs : List Char}
    (h : hasDoubleUnderscore (c :: cs) = false) : hasDoubleUnderscore cs = false := by
  unfold hasDoubleUnderscore at h
  split at h
  · cases h
  · next heq =>
    cases heq
    exact h
  · next heq => cases heq

/-- Without two underscores in what stands for a text and is followed by one,
no backslash of the text stands before a line feed. -/
theorem splice_line_of_symbol {cs more : List Char}
    (h : hasDoubleUnderscore (Identifier.replaceOther cs ++ '_' :: more) = false) :
    splice (cs ++ ['\n']) = cs ++ ['\n'] := by
  induction cs with
  | nil => rfl
  | cons c rest ih =>
    -- both characters would be replaced by underscores
    have hno : ∀ tail, c = '\\' → rest ++ ['\n'] = '\n' :: tail → False := by
      intro tail hc hnext
      subst hc
      cases rest with
      | nil => cases h
      | cons d others =>
        cases (List.cons.inj hnext).1
        cases h
    rw [List.cons_append, splice, ih (hasDoubleUnderscore_tail h)]
    exact hno

/-- C++ refuses every path that has a backslash before a line feed or at its
end, because the name of its path constant would hold two underscores. -/
theorem splice_line_of_accepted {b : Bundle} {s : Settings} (hp : Accepted b s)
    (ht : s.target = .cpp) {a : Asset} (ha : a ∈ b.assets) :
    splice (a.path.toList ++ ['\n']) = a.path.toList ++ ['\n'] := by
  have hfree := hp.unreserved a ha a.pathIdent (by simp [Asset.idents])
  have hchars : a.pathIdent.toList
      = Identifier.guardStart (Identifier.replaceOther a.path.toList) ++ '_' :: "path".toList := by
    unfold Asset.pathIdent Asset.symbol symbolicName Identifier.sanitize
    rw [String.toList_append, String.toList_ofList]
    rfl
  -- the name of the path constant is not kept for the implementation
  have hdouble : hasDoubleUnderscore a.pathIdent.toList = false := by
    rw [ht] at hfree
    simp only [Target.isReserved, isImplementationName, Bool.or_eq_false_iff] at hfree
    exact hfree.1.2.1
  rw [hchars] at hdouble
  refine splice_line_of_symbol (?_ : hasDoubleUnderscore (_ ++ '_' :: "path".toList) = false)
  -- an underscore in front of a digit is not one of the text
  cases hr : Identifier.replaceOther a.path.toList with
  | nil => rw [hr] at hdouble; cases hdouble
  | cons c rest =>
    rw [hr] at hdouble
    simp only [Identifier.guardStart] at hdouble
    split at hdouble
    · exact hasDoubleUnderscore_tail hdouble
    · exact hdouble

/-- A path of an accepted plan is one line just if it holds no line feed. -/
theorem oneLine_path_iff {b : Bundle} {s : Settings} (hp : Accepted b s) {a : Asset}
    (ha : a ∈ b.assets) : OneLine s.target a.path.toList ↔ '\n' ∉ a.path.toList := by
  cases ht : s.target with
  | rust => exact oneLine_rust_iff
  | cpp =>
    have hlogical : logical .cpp (a.path.toList ++ ['\n']) = logical .rust (a.path.toList ++ ['\n']) :=
      splice_line_of_accepted hp ht ha
    rw [← oneLine_rust_iff]
    unfold OneLine
    rw [hlogical]

/-- All files of a bundle keep the paths inside their comments just if no path
holds a line feed. -/
theorem contained_iff {b : Bundle} {s : Settings} {us : List SourceUnit}
    (h : plan b s = .ok us) (hs : Settings.isScope s.scope = true) :
    (∀ u ∈ us, Contained s.target s.renderContext u)
      ↔ ∀ a ∈ b.assets, '\n' ∉ a.path.toList := by
  have hp := (accepted_of_plan h).2
  rw [contained_iff_oneLine h hs]
  exact forall₂_congr fun a ha => oneLine_path_iff hp ha

/-- A script and a page have no line feeds in their names. -/
theorem contained_scriptAndPage : ∃ us, plan scriptAndPage Settings.default = .ok us
    ∧ ((∀ u ∈ us, Contained .cpp (RenderContext.ofScope "webembed" 12) u)
      ↔ ∀ a ∈ scriptAndPage.assets, '\n' ∉ a.path.toList) :=
  ⟨_, rfl, contained_iff (s := Settings.default) rfl (by decide)⟩

/-- A bundle of a file with a line feed in its name. -/
def brokenName : Bundle where
  root := .ofString "/web"
  assets := [⟨"a\nb.txt", [0x61]⟩]
  sorted := by decide
  idents_nodup := by decide

/-- The part of a path after a line feed leaves its comment. -/
theorem not_contained_brokenName : ∃ us, plan brokenName Settings.default = .ok us
    ∧ ¬ ∀ u ∈ us, Contained .cpp (RenderContext.ofScope "webembed" 12) u := by
  refine ⟨_, rfl, fun hall => ?_⟩
  have hcontained := hall _ (List.mem_singleton.2 rfl)
  -- its heading would be one comment
  have hone : IsOneComment .cpp "// Bundled file: a\nb.txt" :=
    hcontained.comments _ List.mem_cons_self
  have hline : OneLine .cpp " Bundled file: a\nb.txt".toList := (isOneComment_iff rfl).1 hone
  exact absurd hline (by decide)

end AssetEmbed.Reading
