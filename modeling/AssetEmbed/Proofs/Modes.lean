/-
  AssetEmbed.Proofs.Modes — one file or many.

  A bundle can be planned as one file, or as a file for each asset with an
  index that includes them.  Both plans declare the same constants in the same
  order and have the same accessors.  Many files may clash where one does not:
  then two of them have names that differ at most in case.

  Main results:
    * `planError?_split`    — many files are refused for what one is refused
      for, and for clashes of their names.
    * `divides_units`       — what the files have to do with each other.
    * `modes_declare_same`  — both modes declare the same.
-/
import AssetEmbed.Proofs.Plan

namespace AssetEmbed

variable {b : Bundle} {s : Settings}

/-! ## §1. What is refused. -/

/-- The names that are taken before the first asset: that of the index. -/
def indexTaken (s : Settings) : Keyed String :=
  [(MediaType.asciiLower s.indexName, s.target.fileName s.indexName ++ " (index)")]

theorem planError?_combined (b : Bundle) (s : Settings) :
    planError? b { s with mode := .combined } = firstReserved s.target b.assets := by
  unfold planError?
  dsimp only
  cases firstReserved s.target b.assets <;> rfl

/-- Many files are refused for what one is refused for, and for clashes of
their names. -/
theorem planError?_split (b : Bundle) (s : Settings) :
    planError? b { s with mode := .split }
      = (planError? b { s with mode := .combined }).or
          (firstFileClash s.target (indexTaken s) b.assets) := by
  rw [planError?_combined]
  unfold planError?
  dsimp only
  cases firstReserved s.target b.assets <;> rfl

theorem plan_eq_ok_iff {us : List SourceUnit} :
    plan b s = .ok us ↔ planError? b s = none ∧ units b s = us := by
  unfold plan
  cases planError? b s <;> simp

theorem plan_eq_error_iff {e : BundleError} :
    plan b s = .error e ↔ planError? b s = some e := by
  unfold plan
  cases planError? b s <;> simp

/-! ## §2. Clashes of files. -/

/-- What a file is called when its name clashes: by the path of its asset, or
as the index. -/
def SourceUnit.origin (target : Target) (u : SourceUnit) : String :=
  match u.kind with
  | .asset source => source
  | .index => target.fileName u.stem ++ " (index)"

/-- Whether an error says that two files of a plan have names that are equal
when case is ignored. -/
def IsFileClash (target : Target) (us : List SourceUnit) (e : BundleError) : Prop :=
  ∃ first ∈ us, ∃ second ∈ us, first ≠ second
    ∧ MediaType.asciiLower (target.fileName first.stem)
      = MediaType.asciiLower (target.fileName second.stem)
    ∧ e = .collision (target.fileName second.stem) (first.origin target) (second.origin target)

/-- A name that is taken is that of a file, which is not that of a later asset. -/
theorem exists_origin_of_lookup {front rest : List Asset} {a : Asset} {first : String}
    (hassets : b.assets = front ++ a :: rest)
    (h : (indexTaken s ++ front.map fun x => (MediaType.asciiLower x.symbol, x.path)).lookup
      (MediaType.asciiLower a.symbol) = some first) :
    ∃ u ∈ units b { s with mode := .split }, u ≠ assetUnit a
      ∧ MediaType.asciiLower u.stem = MediaType.asciiLower a.symbol
      ∧ u.origin s.target = first := by
  -- the entry that is found
  obtain ⟨before, after, hentries, -⟩ := List.lookup_eq_some_iff.1 h
  have hmem : (MediaType.asciiLower a.symbol, first)
      ∈ indexTaken s ++ front.map fun x => (MediaType.asciiLower x.symbol, x.path) := by
    rw [hentries]
    exact List.mem_append_right _ List.mem_cons_self
  rcases List.mem_append.1 hmem with hindex | hfront
  · obtain ⟨hkey, hfirst⟩ := Prod.mk.inj (List.mem_singleton.1 hindex)
    refine ⟨indexUnit b { s with mode := .split }, List.mem_append_right _ List.mem_cons_self,
      ?_, hkey.symm, hfirst.symm⟩
    -- the index is the file of no asset
    intro heq
    cases congrArg SourceUnit.kind heq
  · obtain ⟨x, hx, hentry⟩ := List.mem_map.1 hfront
    obtain ⟨hkey, hfirst⟩ := Prod.mk.inj hentry
    have hxb : x ∈ b.assets := hassets ▸ List.mem_append_left _ hx
    refine ⟨assetUnit x, List.mem_append_left _ (List.mem_map_of_mem hxb), ?_, hkey, hfirst⟩
    -- an earlier asset has another path
    intro heq
    have hpath : x.path = a.path := UnitKind.asset.inj (congrArg SourceUnit.kind heq)
    have hsorted := b.sorted
    rw [hassets, List.pairwise_append] at hsorted
    have hlt := hsorted.2.2 x hx a List.mem_cons_self
    rw [hpath] at hlt
    exact List.lt_irrefl _ hlt

/-- What a search for clashes reports is one. -/
theorem isFileClash_of_firstFileClash {e : BundleError}
    (h : firstFileClash s.target (indexTaken s) b.assets = some e) :
    IsFileClash s.target (units b { s with mode := .split }) e := by
  obtain ⟨front, a, rest, first, hassets, -, hlookup, rfl⟩ := firstFileClash_eq_some h
  obtain ⟨u, hu, hne, hstem, horigin⟩ := exists_origin_of_lookup hassets hlookup
  have ha : a ∈ b.assets := by
    rw [hassets]
    exact List.mem_append_right _ List.mem_cons_self
  refine ⟨u, hu, assetUnit a, List.mem_append_left _ (List.mem_map_of_mem ha), hne, ?_, ?_⟩
  · rw [asciiLower_fileName, hstem, ← asciiLower_fileName]
    rfl
  · rw [horigin]
    rfl

/-! ## §3. The files of both modes. -/

/-- How a file that holds a whole bundle is divided into parts and an index. -/
structure Divides (split : Settings) (entries : List IndexEntry) (parts : List SourceUnit)
    (index whole : SourceUnit) : Prop where
  /-- One after another, the parts declare what the whole declares before its
  accessors. -/
  whole_declarations :
    whole.declarations = parts.flatMap (·.declarations) ++ [.accessors entries]
  /-- The index holds nothing but inclusions and the same accessors. -/
  index_declarations :
    index.declarations
      = parts.map (fun u => .include (u.rendered split).fileName) ++ [.accessors entries]
  accessors : index.accessors? = some entries ∧ whole.accessors? = some entries
  /-- The index includes all parts by the names of their files, in order. -/
  includes : index.includes = parts.map fun u => (u.rendered split).fileName
  /-- It does not include itself. -/
  apart : (index.rendered split).fileName ∉ index.includes
  /-- Parts include nothing and have no accessors. -/
  plain : ∀ u ∈ parts, u.includes = [] ∧ u.accessors? = none
  kinds : index.kind = .index ∧ whole.kind = .index ∧ ∀ u ∈ parts, ∃ source, u.kind = .asset source

/-- In an accepted plan of many files, these are the parts of the one file. -/
theorem divides_units {us : List SourceUnit} (h : plan b { s with mode := .split } = .ok us) :
    Divides { s with mode := .split } (b.assets.map Asset.indexEntry) (b.assets.map assetUnit)
      (indexUnit b { s with mode := .split }) (indexUnit b { s with mode := .combined }) := by
  have hincludes : (indexUnit b { s with mode := .split }).includes
      = (b.assets.map assetUnit).map
        fun u => (u.rendered { s with mode := .split }).fileName := by
    rw [includes_indexUnit, List.map_map]
    rfl
  refine
    { whole_declarations := ?_
      index_declarations := ?_
      accessors := ⟨accessors?_indexUnit b _, accessors?_indexUnit b _⟩
      includes := hincludes
      apart := ?_
      plain := ?_
      kinds := ⟨rfl, rfl, ?_⟩ }
  · show b.assets.flatMap Declaration.ofAsset ++ _ = _
    rw [List.flatMap_map]
    rfl
  · show (b.assets.map fun a => Declaration.include (s.target.fileName a.symbol)) ++ _ = _
    rw [List.map_map]
    rfl
  · -- the stems of the assets are not that of the index
    rw [hincludes, List.map_map]
    intro hm
    obtain ⟨a, ha, hname⟩ := List.mem_map.1 hm
    exact (accepted_of_plan h).2.index_apart rfl a ha (fileName_injective _ hname)
  · intro u hu
    obtain ⟨a, -, rfl⟩ := List.mem_map.1 hu
    exact ⟨rfl, rfl⟩
  · intro u hu
    obtain ⟨a, -, rfl⟩ := List.mem_map.1 hu
    exact ⟨a.path, rfl⟩

/-- Both modes declare the same.  Where many files are accepted one file is,
and then the many are its parts and an index that includes them all.  Where
only one file is accepted, the names of two of the many clash. -/
theorem modes_declare_same (b : Bundle) (s : Settings) :
    ((∃ us, plan b { s with mode := .split } = .ok us) →
      ∃ us, plan b { s with mode := .combined } = .ok us)
    ∧ (∀ us us', plan b { s with mode := .split } = .ok us →
        plan b { s with mode := .combined } = .ok us' →
        ∃ entries parts index whole, us = parts ++ [index] ∧ us' = [whole]
          ∧ Divides { s with mode := .split } entries parts index whole)
    ∧ ∀ us' e, plan b { s with mode := .combined } = .ok us' →
        plan b { s with mode := .split } = .error e →
        IsFileClash s.target (units b { s with mode := .split }) e := by
  have hsplit := planError?_split b s
  refine ⟨?_, ?_, ?_⟩
  · rintro ⟨us, h⟩
    -- what is no error with many files is none with one
    have hnone := (plan_eq_ok_iff.1 h).1
    rw [hsplit, Option.or_eq_none_iff] at hnone
    exact ⟨_, plan_eq_ok_iff.2 ⟨hnone.1, rfl⟩⟩
  · intro us us' h h'
    refine ⟨_, _, _, _, ?_, ?_, divides_units h⟩
    · exact (plan_eq_ok_iff.1 h).2.symm
    · exact (plan_eq_ok_iff.1 h').2.symm
  · intro us' e h' h
    have hsome := plan_eq_error_iff.1 h
    rw [hsplit, (plan_eq_ok_iff.1 h').1, Option.none_or] at hsome
    exact isFileClash_of_firstFileClash hsome

/-! ## §4. Two bundles. -/

/-- A bundle whose one asset would take the file of the index. -/
def indexNamesake : Bundle where
  root := .ofString "/web"
  assets := [⟨"Web-Bundle", []⟩]
  sorted := by decide
  idents_nodup := by decide

/-- A script and a page divide; an asset named like the index does not. -/
theorem modes_declare_same_examples :
    (∃ entries parts index whole,
      plan scriptAndPage { Settings.default with mode := .split } = .ok (parts ++ [index])
        ∧ plan scriptAndPage { Settings.default with mode := .combined } = .ok [whole]
        ∧ Divides { Settings.default with mode := .split } entries parts index whole)
    ∧ ∃ us e, plan indexNamesake { Settings.default with mode := .combined } = .ok us
        ∧ plan indexNamesake { Settings.default with mode := .split } = .error e
        ∧ IsFileClash .cpp (units indexNamesake { Settings.default with mode := .split }) e := by
  refine ⟨?_, ?_⟩
  · have hsplit : plan scriptAndPage { Settings.default with mode := .split }
        = .ok (units scriptAndPage { Settings.default with mode := .split }) := by rfl
    have hwhole : plan scriptAndPage { Settings.default with mode := .combined }
        = .ok (units scriptAndPage { Settings.default with mode := .combined }) := by rfl
    obtain ⟨entries, parts, index, whole, hus, hus', hdivides⟩ :=
      (modes_declare_same scriptAndPage .default).2.1 _ _ hsplit hwhole
    exact ⟨entries, parts, index, whole, hus ▸ hsplit, hus' ▸ hwhole, hdivides⟩
  · have hwhole : plan indexNamesake { Settings.default with mode := .combined }
        = .ok (units indexNamesake { Settings.default with mode := .combined }) := by rfl
    have hsplit : plan indexNamesake { Settings.default with mode := .split }
        = .error (.collision "Web_Bundle.hpp" "web_bundle.hpp (index)" "Web-Bundle") := by rfl
    exact ⟨_, _, hwhole, hsplit, (modes_declare_same indexNamesake .default).2.2 _ _ hwhole hsplit⟩

end AssetEmbed
