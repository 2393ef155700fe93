/-
  AssetEmbed.Proofs.Reading.Outline — what a generated file says.

  The outline of a file is everything in it but its comments and its layout:
  the scopes around the declarations, the files it includes, its constants in
  order and the entries of its accessors.

  Main results:
    * `regular_of_mem_units` — in the files of a bundle the accessors come last.
    * `legible_of_mem_units` — their names are words, and if the paths stay
      inside their comments then every comment is one.
-/
import AssetEmbed.Proofs.Plan
import AssetEmbed.Proofs.Reading.Line
import AssetEmbed.Settings.Validation

namespace AssetEmbed.Reading

open Layout

/-! ## §1. Outlines. -/

/-- A constant as it stands in a file. -/
inductive Constant where
  /-- A byte array, and its length if the target declares one. -/
  | bytes (name : String) (length : Option Nat) (content : List UInt8)
  | text (name value : String)
deriving DecidableEq, Repr

/-- What a file says. -/
structure Outline where
  /-- The scopes that are opened and closed, outermost first. -/
  scope : List String
  includes : List String
  constants : List Constant
  accessors : Option (List IndexEntry)
deriving DecidableEq, Repr

/-- The length that a target declares for a byte array. -/
def lengthIn : Target → List UInt8 → Option Nat
  | .cpp, _ => none
  | .rust, content => some content.length

/-- The constant that a declaration declares. -/
def constant? (target : Target) : Declaration → Option Constant
  | .bytes name content => some (.bytes name (lengthIn target content) content)
  | .text name value => some (.text name value)
  | _ => none

/-- The scopes that a file opens.  The file of one Rust asset opens none,
because it is included from inside the scopes of the index file. -/
def scopeIn (target : Target) (ctx : RenderContext) (u : SourceUnit) : List String :=
  -- the file of a C++ asset is a header of its own, with its own namespaces
  match target, u.kind with
  | .rust, .asset _ => []
  | _, _ => ctx.scope

/-- What a planned file has to say in a target. -/
def outline (target : Target) (ctx : RenderContext) (u : SourceUnit) : Outline where
  scope := scopeIn target ctx u
  includes := u.includes
  constants := u.declarations.filterMap (constant? target)
  accessors := u.accessors?

/-! ## §2. Regular files. -/

def isAccessors : Declaration → Bool
  | .accessors _ => true
  | _ => false

/-- Whether at most one block of accessors stands in a file, at its end. -/
def Regular (u : SourceUnit) : Prop :=
  ∃ content, (∀ d ∈ content, isAccessors d = false)
    ∧ u.declarations = content ++ u.accessors?.toList.map .accessors

theorem isAccessors_ofAsset (a : Asset) :
    ∀ d ∈ Declaration.ofAsset a, isAccessors d = false := by
  simp [Declaration.ofAsset, isAccessors]

theorem isAccessors_indexContent (b : Bundle) (s : Settings) :
    ∀ d ∈ indexContent b s, isAccessors d = false := by
  unfold indexContent
  intro d hd
  cases hm : s.mode with
  | combined =>
    rw [hm] at hd
    obtain ⟨a, -, hda⟩ := List.mem_flatMap.1 hd
    exact isAccessors_ofAsset a d hda
  | split =>
    rw [hm] at hd
    obtain ⟨a, -, rfl⟩ := List.mem_map.1 hd
    rfl

theorem regular_assetUnit (a : Asset) : Regular (assetUnit a) :=
  ⟨Declaration.ofAsset a, isAccessors_ofAsset a, rfl⟩

theorem regular_indexUnit (b : Bundle) (s : Settings) : Regular (indexUnit b s) := by
  refine ⟨indexContent b s, isAccessors_indexContent b s, ?_⟩
  rw [accessors?_indexUnit]
  rfl

theorem regular_of_mem_units {b : Bundle} {s : Settings} {u : SourceUnit} (h : u ∈ units b s) :
    Regular u := by
  rcases eq_of_mem_units h with ⟨-, a, -, rfl⟩ | rfl
  · exact regular_assetUnit a
  · exact regular_indexUnit b s

/-- In a regular file the tokens of the constants come first, in order, and
then those of the accessors. -/
theorem flatMap_body (target : Target) {u : SourceUnit} (hr : Regular u)
    {tokens : Declaration → List Token} (constantTokens : Constant → List Token)
    (ht : ∀ d, isAccessors d = false → tokens d = (constant? target d).elim [] constantTokens) :
    u.body.flatMap tokens
      = (u.declarations.filterMap (constant? target)).flatMap constantTokens
        ++ u.accessors?.elim [] fun entries => tokens (.accessors entries) := by
  obtain ⟨content, hcontent, hu⟩ := hr
  -- the body is the file without its inclusions, and these have no tokens
  have hfilter : ∀ ds : List Declaration, (SourceUnit.mk u.stem u.kind ds).body.flatMap tokens
      = ds.flatMap tokens := by
    intro ds
    induction ds with
    | nil => rfl
    | cons d rest ih =>
      cases d with
      | «include» file =>
        have hnone : tokens (.include file) = [] := ht _ rfl
        rw [List.flatMap_cons, hnone]
        exact ih
      | comment _ | bytes _ _ | text _ _ | accessors _ =>
        rw [List.flatMap_cons, ← ih]
        rfl
  -- before the accessors, tokens come from constants only
  have hconstants : content.flatMap tokens
      = (content.filterMap (constant? target)).flatMap constantTokens := by
    clear hu
    induction content with
    | nil => rfl
    | cons d rest ih =>
      obtain ⟨hd, hrest⟩ := List.forall_mem_cons.1 hcontent
      rw [List.flatMap_cons, List.filterMap_cons, ht d hd, ih hrest]
      cases constant? target d <;> rfl
  have hbody : u.body.flatMap tokens = u.declarations.flatMap tokens := hfilter u.declarations
  rw [hbody, hu, List.flatMap_append, List.filterMap_append, hconstants]
  cases u.accessors? with
  | none => simp
  | some entries => simp [constant?]

/-- A blank line before each group does not matter. -/
theorem reads_groups {target : Target} {ds : List Declaration} {ops : Declaration → List Op}
    {tokens : Declaration → List Token} (h : ∀ d ∈ ds, Reads target (ops d) (tokens d)) :
    Reads target (ds.flatMap fun d => (if d.startsGroup then [Op.blank] else []) ++ ops d)
      (ds.flatMap tokens) := by
  refine .flatMap fun d hd => ?_
  split
  · exact Reads.blank.skip (h d hd)
  · exact h d hd

/-! ## §3. Legible files. -/

/-- Whether a target can write a declaration so that it is read as what it is. -/
def LegibleDeclaration (target : Target) : Declaration → Prop
  | .comment text => OneLine target text.toList
  | .bytes name _ => IsWord name.toList
  | .text name _ => IsWord name.toList
  | .include file => ∃ stem, IsWord stem.toList ∧ file = target.fileName stem
  | .accessors entries => ∀ e ∈ entries, IsWord e.symbol.toList

/-- Whether a target can write a file so that it is read as what it is. -/
structure Legible (target : Target) (u : SourceUnit) : Prop where
  provenance : ∀ source, u.kind = .asset source → OneLine target source.toList
  declarations : ∀ d ∈ u.declarations, LegibleDeclaration target d

theorem Legible.inclusion {target : Target} {u : SourceUnit} (h : Legible target u)
    {file : String} (hf : file ∈ u.includes) :
    ∃ stem, IsWord stem.toList ∧ file = target.fileName stem := by
  obtain ⟨d, hd, hfile⟩ := List.mem_filterMap.1 hf
  have hlegible := h.declarations d hd
  cases d with
  | «include» _ =>
    cases hfile
    exact hlegible
  | comment _ | bytes _ _ | text _ _ | accessors _ => cases hfile

theorem isWord_symbol (a : Asset) : IsWord a.symbol.toList := by
  unfold Asset.symbol symbolicName
  rw [String.toList_ofList]
  exact isWord_of_isIdentifier (Identifier.isIdentifier_sanitize _)

theorem IsWord.append {xs ys : List Char} (hx : IsWord xs)
    (hy : ys.all Identifier.isPart = true) : IsWord (xs ++ ys) := by
  refine ⟨fun h => hx.1 (List.append_eq_nil_iff.1 h).1, ?_⟩
  rw [List.all_append, hx.2, hy]
  rfl

theorem isWord_pathIdent {symbol : String} (h : IsWord symbol.toList) :
    IsWord (symbol ++ Asset.pathSuffix).toList := by
  rw [String.toList_append]
  exact h.append (by decide)

theorem isWord_mimeIdent {symbol : String} (h : IsWord symbol.toList) :
    IsWord (symbol ++ Asset.mimeSuffix).toList := by
  rw [String.toList_append]
  exact h.append (by decide)

/-- The heading comment of an asset is one if its path is one line. -/
theorem oneLine_heading {target : Target} {path : String} :
    OneLine target ("Bundled file: " ++ path).toList ↔ OneLine target path.toList := by
  rw [String.toList_append]
  exact oneLine_append (by decide) (by decide) _

theorem legible_ofAsset {target : Target} {a : Asset} (h : OneLine target a.path.toList) :
    ∀ d ∈ Declaration.ofAsset a, LegibleDeclaration target d := by
  intro d hd
  have hword := isWord_symbol a
  simp only [Declaration.ofAsset, List.mem_cons, List.not_mem_nil, or_false] at hd
  rcases hd with rfl | rfl | rfl | rfl
  · exact oneLine_heading.2 h
  · exact hword
  · exact isWord_pathIdent hword
  · exact isWord_mimeIdent hword

theorem legible_assetUnit {target : Target} {a : Asset} (h : OneLine target a.path.toList) :
    Legible target (assetUnit a) where
  provenance := by
    rintro source ⟨⟩
    exact h
  declarations := legible_ofAsset h

theorem legible_indexUnit {b : Bundle} {s : Settings}
    (h : s.mode = .combined → ∀ a ∈ b.assets, OneLine s.target a.path.toList) :
    Legible s.target (indexUnit b s) where
  provenance := by
    rintro source ⟨⟩
  declarations := by
    intro d hd
    rcases List.mem_append.1 hd with hd | hd
    -- only in combined mode do paths stand in the comments of the index
    · unfold indexContent at hd
      cases hm : s.mode with
      | combined =>
        rw [hm] at hd
        obtain ⟨a, ha, hda⟩ := List.mem_flatMap.1 hd
        exact legible_ofAsset (h hm a ha) d hda
      | split =>
        rw [hm] at hd
        obtain ⟨a, -, rfl⟩ := List.mem_map.1 hd
        exact ⟨a.symbol, isWord_symbol a, rfl⟩
    -- the accessors name the symbols of the assets
    · rw [List.mem_singleton.1 hd]
      intro e he
      obtain ⟨a, -, rfl⟩ := List.mem_map.1 he
      exact isWord_symbol a

theorem legible_of_mem_units {b : Bundle} {s : Settings}
    (h : ∀ a ∈ b.assets, OneLine s.target a.path.toList) {u : SourceUnit} (hu : u ∈ units b s) :
    Legible s.target u := by
  rcases eq_of_mem_units hu with ⟨-, a, ha, rfl⟩ | rfl
  · exact legible_assetUnit (h a ha)
  · exact legible_indexUnit fun _ => h

/-! ## §4. Comments. -/

theorem toList_headingLine (text : String) :
    ("// " ++ text).toList = '/' :: '/' :: ([' '] ++ text.toList) := by
  rw [String.toList_append]
  rfl

theorem oneLine_headingLine {target : Target} {text : String} :
    OneLine target ([' '] ++ text.toList) ↔ OneLine target text.toList :=
  oneLine_append (by decide) (by decide) _

theorem toList_provenanceLine (source : String) :
    ("// Generated from " ++ source).toList
      = '/' :: '/' :: (" Generated from ".toList ++ source.toList) := by
  rw [String.toList_append]
  rfl

theorem oneLine_provenanceLine {target : Target} {source : String} :
    OneLine target (" Generated from ".toList ++ source.toList) ↔ OneLine target source.toList :=
  oneLine_append (by decide) (by decide) _

/-- A heading comment that stays inside its line leaves no tokens. -/
theorem reads_heading {target : Target} {text : String} (h : OneLine target text.toList) :
    Reads target [.line ("// " ++ text)] [] :=
  .comment (toList_headingLine text) (oneLine_headingLine.2 h)

theorem reads_notice {target : Target} : Reads target [.line generatedNotice] [] :=
  reads_comment (by rfl)

/-- The second comment of a file leaves no tokens. -/
theorem reads_provenance {target : Target} {u : SourceUnit} (h : Legible target u) :
    Reads target [.line u.kind.provenance] [] := by
  have hp := h.provenance
  cases hk : u.kind with
  | asset source =>
    exact .comment (toList_provenanceLine source) (oneLine_provenanceLine.2 (hp source hk))
  | index => exact reads_comment (by rfl)

/-! ## §5. Scopes. -/

/-- The scopes around the declarations are words. -/
theorem isWord_scope {s : Settings} (h : Settings.isScope s.scope = true) :
    ∀ name ∈ s.renderContext.scope, IsWord name.toList := by
  intro name hn
  rcases List.mem_append.1 hn with hn | hn
  -- the last scope is fixed; the others are pieces of the setting
  · have hpiece := (List.mem_filter.1 hn).1
    obtain ⟨piece, hp, rfl⟩ := List.mem_map.1 hpiece
    rw [String.toList_ofList]
    exact isWord_of_isIdentifier (List.all_eq_true.1 h piece hp)
  · rw [List.mem_singleton.1 hn]
    exact ⟨by decide, by decide⟩

end AssetEmbed.Reading
