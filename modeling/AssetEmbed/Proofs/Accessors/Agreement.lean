/-
  AssetEmbed.Proofs.Accessors.Agreement — the generated accessors answer as
  the index of the bundle does.

  The accessors stand in the index file and see its constants, and with one
  file for each asset also the constants of the files that it includes.  In
  either mode these are the constants of all assets (`visible_index`), their
  names differ, and none is the name of an accessor or of a local variable.
  So each insertion finds the one constant that it means.

  Main results:
    * `visible_index`             — what the index file sees.
    * `resolve_constant`          — a name of an asset means its constant.
    * `accessors_agree_with_index` — the three maps and the two look-ups of
      the generated file are those of `AssetIndex`.
-/
import AssetEmbed.Bundle.Index
import AssetEmbed.Proofs.Accessors.Block
import AssetEmbed.Proofs.Plan
import Mathlib.Data.List.Nodup

namespace AssetEmbed

namespace Accessors

/-! ## §1. The constants that a file sees. -/

/-- The constants that a declaration declares. -/
def meanings : Declaration → Scope
  | .bytes name content => [(name, .bytes content)]
  | .text name value => [(name, .text value)]
  | _ => []

/-- The constants of a file. -/
def constants (u : SourceUnit) : Scope := u.declarations.flatMap meanings

/-- The constants that a file sees among the files of a plan: those of every
file that it includes by name, and its own. -/
def visible (target : Target) (units : List SourceUnit) (u : SourceUnit) : Scope :=
  (u.includes.flatMap fun file =>
    (units.filter fun v => target.fileName v.stem == file).flatMap constants) ++ constants u

/-- The three constants of an asset. -/
def assetConstants (a : Asset) : Scope :=
  [(a.symbol, .bytes a.bytes), (a.pathIdent, .text a.path), (a.mimeIdent, .text a.mime)]

theorem constants_assetUnit (a : Asset) : constants (assetUnit a) = assetConstants a := rfl

theorem names_assetConstants (a : Asset) : (assetConstants a).map Prod.fst = a.idents := rfl

/-- The constants that an index file declares itself. -/
theorem constants_indexUnit (b : Bundle) (s : Settings) :
    constants (indexUnit b s)
      = match s.mode with
        | .combined => b.assets.flatMap assetConstants
        | .split => [] := by
  unfold constants indexUnit indexContent
  cases s.mode with
  | combined =>
    simp only [List.flatMap_append, List.flatMap_assoc, List.flatMap_cons, List.flatMap_nil,
      meanings, List.append_nil]
    rfl
  | split => simp [List.flatMap_append, List.flatMap_map, meanings]

/-! ## §2. The constants that an index file sees. -/

/-- A condition that singles out one element keeps just this one. -/
theorem filter_eq_singleton {α : Type} {xs : List α} {p : α → Bool} {x : α} (hn : xs.Nodup)
    (hx : x ∈ xs) (hp : ∀ y ∈ xs, p y = true → y = x) (hpx : p x = true) :
    xs.filter p = [x] := by
  induction xs with
  | nil => cases hx
  | cons y ys ih =>
    obtain ⟨hy, hys⟩ := List.nodup_cons.1 hn
    rcases List.mem_cons.1 hx with rfl | hx
    -- `x` comes first, and does not occur again
    · have hnone : ys.filter p = [] := List.filter_eq_nil_iff.2 fun z hz hpz =>
        hy (hp z (List.mem_cons_of_mem x hz) hpz ▸ hz)
      rw [List.filter_cons_of_pos hpx, hnone]
    -- another element comes first, and is dropped
    · have hpy : ¬ p y = true := fun h => hy (hp y List.mem_cons_self h ▸ hx)
      rw [List.filter_cons_of_neg hpy]
      exact ih hys hx fun z hz => hp z (List.mem_cons_of_mem y hz)

/-- The files of a plan with the name of an asset's file are that file alone. -/
theorem filter_fileName {b : Bundle} {s : Settings} (hs : s.mode = .split) (hp : Accepted b s)
    {a : Asset} (ha : a ∈ b.assets) :
    (units b s).filter (fun v => s.target.fileName v.stem == s.target.fileName a.symbol)
      = [assetUnit a] := by
  have hunits : units b s = b.assets.map assetUnit ++ [indexUnit b s] := by
    unfold units; rw [hs]
  -- of the files of the assets: equal symbols belong to one asset
  have hassets : b.assets.filter
      ((fun v : SourceUnit => s.target.fileName v.stem == s.target.fileName a.symbol) ∘ assetUnit)
        = [a] := by
    refine filter_eq_singleton (nodup_assets b) ha (fun c hc h => ?_) (by simp [assetUnit])
    have hsym : c.symbol = a.symbol := fileName_injective s.target (by simpa [assetUnit] using h)
    have hmem : c.symbol ∈ c.idents := by simp [Asset.idents]
    exact eq_of_mem_idents b.idents_nodup hc ha hmem (by simp [Asset.idents, hsym])
  -- the index file has a name that no asset has
  have hindex : ¬ (s.target.fileName (indexUnit b s).stem == s.target.fileName a.symbol) = true :=
    fun h => hp.index_apart hs a ha (fileName_injective s.target (beq_iff_eq.1 h)).symm
  rw [hunits, List.filter_append, List.filter_map, hassets,
    List.filter_eq_nil_iff.2 fun v hv => List.mem_singleton.1 hv ▸ hindex]
  rfl

/-- In either mode the index file sees the constants of all assets, in order. -/
theorem visible_index {b : Bundle} {s : Settings} (hp : Accepted b s) :
    visible s.target (units b s) (indexUnit b s) = b.assets.flatMap assetConstants := by
  unfold visible
  rw [includes_indexUnit, constants_indexUnit]
  cases hm : s.mode with
  -- the constants stand in the file itself, and nothing is included
  | combined => simp
  | split =>
    simp only [List.flatMap_map, List.append_nil]
    -- each inclusion reaches the file of one asset, and no other
    have heach : ∀ a ∈ b.assets,
        ((units b s).filter fun v =>
          s.target.fileName v.stem == s.target.fileName a.symbol).flatMap constants
          = assetConstants a := by
      intro a ha
      rw [filter_fileName hm hp ha, List.flatMap_cons, List.flatMap_nil, List.append_nil,
        constants_assetUnit]
    rw [List.flatMap_def, List.flatMap_def, List.map_congr_left heach]

theorem names_visible (assets : List Asset) :
    (assets.flatMap assetConstants).map Prod.fst = assets.flatMap Asset.idents := by
  simp only [List.map_flatMap, names_assetConstants]

/-! ## §3. What the names in the accessors mean. -/

/-- The functions that a block of accessors declares. -/
def functions : Scope := accessorNames.map fun name => (name, .function)

/-- Whether a name means one declaration, and is neither an accessor nor one
of their variables and parameters. -/
def MeansOneConstant (declared : Scope) (ident : String) : Prop :=
  (declared.filter (·.1 == ident)).length = 1 ∧ ident ∉ accessorNames ∧ ident ∉ accessorLocals

theorem notMem_of_isReserved {target : Target} {ident : String}
    (h : target.isReserved ident = false) : ident ∉ accessorNames ∧ ident ∉ accessorLocals := by
  have hn : isAccessorName ident = false := by
    cases target <;> simp only [Target.isReserved, Bool.or_eq_false_iff] at h
    · exact h.2
    · exact h.2
  simp only [isAccessorName, Bool.or_eq_false_iff] at hn
  simpa using hn

/-- Each constant of an asset is the only one with its name. -/
theorem filter_constants {b : Bundle} {a : Asset} (ha : a ∈ b.assets) {ident : String}
    {what : Meaning} (hw : (ident, what) ∈ assetConstants a) :
    (b.assets.flatMap assetConstants).filter (·.1 == ident) = [(ident, what)] := by
  have hnames : ((b.assets.flatMap assetConstants).map Prod.fst).Nodup := by
    rw [names_visible]
    exact b.idents_nodup
  have hmem : (ident, what) ∈ b.assets.flatMap assetConstants := List.mem_flatMap.2 ⟨a, ha, hw⟩
  refine filter_eq_singleton hnames.of_map hmem (fun other ho h => ?_) (by simp)
  exact List.inj_on_of_nodup_map hnames ho hmem (beq_iff_eq.1 h)

theorem meansOneConstant {b : Bundle} {s : Settings} (hp : Accepted b s) {a : Asset}
    (ha : a ∈ b.assets) {ident : String} (hi : ident ∈ a.idents) :
    MeansOneConstant (b.assets.flatMap assetConstants) ident := by
  refine ⟨?_, notMem_of_isReserved (hp.unreserved a ha ident hi)⟩
  rw [← names_assetConstants] at hi
  obtain ⟨⟨name, what⟩, hw, rfl⟩ := List.mem_map.1 hi
  rw [filter_constants ha hw]
  rfl

/-- Inside an accessor, next to all accessors and to its local variable, the
name of a constant means that constant. -/
theorem resolve_constant {b : Bundle} {s : Settings} (hp : Accepted b s) {a : Asset}
    (ha : a ∈ b.assets) {ident : String} {what : Meaning}
    (hw : (ident, what) ∈ assetConstants a) {localName : String} (hl : localName ∈ accessorLocals) :
    resolve [[(localName, .variable)], b.assets.flatMap assetConstants ++ functions] ident
      = some what := by
  have hident : ident ∈ a.idents := names_assetConstants a ▸ List.mem_map.2 ⟨_, hw, rfl⟩
  obtain ⟨-, hnames, hlocals⟩ := meansOneConstant hp ha hident
  -- the local variable does not hide the constant
  have hinner : [(localName, Meaning.variable)].filter (·.1 == ident) = [] := by
    refine List.filter_eq_nil_iff.2 fun entry he h => hlocals ?_
    rw [List.mem_singleton.1 he] at h
    exact beq_iff_eq.1 h ▸ hl
  -- next to the constants stand only the accessors
  have hfunctions : functions.filter (·.1 == ident) = [] := by
    refine List.filter_eq_nil_iff.2 fun entry he h => hnames ?_
    obtain ⟨name, hn, rfl⟩ := List.mem_map.1 he
    exact beq_iff_eq.1 h ▸ hn
  unfold resolve
  rw [hinner]
  unfold resolve
  rw [List.filter_append, filter_constants ha hw, hfunctions]
  rfl

/-! ## §4. The maps. -/

section
variable {α : Type}

/-- A map under a change of its values. -/
def mapValues {β : Type} (f : α → β) (entries : Keyed α) : Keyed β :=
  entries.map fun entry => (entry.1, f entry.2)

theorem mapValues_put {β : Type} (f : α → β) (key : String) (value : α) (entries : Keyed α) :
    mapValues f (Keyed.put key value entries) = Keyed.put key (f value) (mapValues f entries) := by
  induction entries with
  | nil => rfl
  | cons entry rest ih =>
    simp only [Keyed.put, mapValues, List.map_cons] at ih ⊢
    split
    · rfl
    · rw [List.map_cons, ih]

/-- Filling a map with what `f` makes of the assets is filling it with the
assets, and then applying `f`. -/
theorem foldl_put_eq (f : Asset → α) (assets : List Asset) (entries : Keyed Asset) :
    assets.foldl (fun entries a => Keyed.put a.path (f a) entries) (mapValues f entries)
      = mapValues f (assets.foldl (fun entries a => Keyed.put a.path a entries) entries) := by
  induction assets generalizing entries with
  | nil => rfl
  | cons a rest ih =>
    simp only [List.foldl_cons]
    rw [← mapValues_put]
    exact ih _

theorem lookup_mapValues {β : Type} (f : α → β) (entries : Keyed α) (query : String) :
    (mapValues f entries).lookup query = (entries.lookup query).map f := by
  induction entries with
  | nil => rfl
  | cons entry rest ih =>
    obtain ⟨key, value⟩ := entry
    simp only [mapValues, List.map_cons, List.lookup_cons] at ih ⊢
    cases query == key with
    | true => rfl
    | false => exact ih

/-- A map function whose insertions name, asset by asset, constants of the
value that `f` gives, returns the index under `f`. -/
theorem run_eq_index {b : Bundle} {s : Settings} (hp : Accepted b s)
    {kind : Meaning → Option α} {f : Asset → α} {name localName : String}
    (hl : localName ∈ accessorLocals) {ident : Asset → String} (what : Asset → Meaning)
    (hw : ∀ a, (ident a, what a) ∈ assetConstants a) (hk : ∀ a, kind (what a) = some (f a)) :
    (MapFunction.mk name localName (b.assets.map fun a => ⟨a.path, ident a⟩)).run kind
        (b.assets.flatMap assetConstants ++ functions)
      = some (mapValues f (AssetIndex.ofBundle b).byPath) := by
  -- the value of every insertion is there, so the map is filled to the end
  have hread : ∀ a ∈ b.assets,
      (resolve [[(localName, .variable)], b.assets.flatMap assetConstants ++ functions]
        (ident a)).bind kind = some (f a) := by
    intro a ha
    rw [resolve_constant hp ha (hw a) hl, Option.bind_some, hk]
  unfold MapFunction.run
  rw [fill_eq_some (fun a => ⟨a.path, ident a⟩) f hread]
  exact congrArg some (foldl_put_eq f b.assets [])

end

/-- The entries of an index file, as the accessors of its assets. -/
def blockOf (b : Bundle) : Block := .ofEntries (b.assets.map Asset.indexEntry)

theorem run_files {b : Bundle} {s : Settings} (hp : Accepted b s) :
    (blockOf b).files.run Meaning.bytes? (b.assets.flatMap assetConstants ++ functions)
      = some (AssetIndex.ofBundle b).files := by
  have hmap : (blockOf b).files
      = ⟨"get_bundled_files", "files", b.assets.map fun a => ⟨a.path, a.symbol⟩⟩ := by
    simp only [blockOf, Block.ofEntries, List.map_map]
    rfl
  rw [hmap]
  exact run_eq_index hp (by decide) (fun a => .bytes a.bytes) (fun a => by simp [assetConstants])
    fun _ => rfl

theorem run_paths {b : Bundle} {s : Settings} (hp : Accepted b s) :
    (blockOf b).paths.run Meaning.text? (b.assets.flatMap assetConstants ++ functions)
      = some (AssetIndex.ofBundle b).paths := by
  have hmap : (blockOf b).paths
      = ⟨"get_bundled_file_paths", "paths", b.assets.map fun a => ⟨a.path, a.pathIdent⟩⟩ := by
    simp only [blockOf, Block.ofEntries, List.map_map]
    rfl
  rw [hmap]
  exact run_eq_index hp (by decide) (fun a => .text a.path) (fun a => by simp [assetConstants])
    fun _ => rfl

theorem run_mimeTypes {b : Bundle} {s : Settings} (hp : Accepted b s) :
    (blockOf b).mimeTypes.run Meaning.text? (b.assets.flatMap assetConstants ++ functions)
      = some (AssetIndex.ofBundle b).mimeTypes := by
  have hmap : (blockOf b).mimeTypes
      = ⟨"get_bundled_file_mime_types", "mime_types", b.assets.map fun a => ⟨a.path, a.mimeIdent⟩⟩ := by
    simp only [blockOf, Block.ofEntries, List.map_map]
    rfl
  rw [hmap]
  exact run_eq_index hp (by decide) (fun a => .text a.mime) (fun a => by simp [assetConstants])
    fun _ => rfl

/-! ## §5. The look-ups. -/

theorem run_file {b : Bundle} {s : Settings} (hp : Accepted b s) (query : String) :
    (blockOf b).file.run Meaning.bytes? (b.assets.flatMap assetConstants ++ functions)
        (blockOf b) query
      = some ((AssetIndex.ofBundle b).file? query) := by
  have hsource : (blockOf b).mapNamed (blockOf b).file.source = some (blockOf b).files := rfl
  unfold LookupFunction.run
  rw [hsource, Option.bind_some, run_files hp]
  exact congrArg some (lookup_mapValues Asset.bytes _ query)

theorem run_mimeType {b : Bundle} {s : Settings} (hp : Accepted b s) (query : String) :
    ((blockOf b).mimeType.run Meaning.text? (b.assets.flatMap assetConstants ++ functions)
        (blockOf b) query).map (Option.or · (blockOf b).mimeType.fallback)
      = some (some ((AssetIndex.ofBundle b).mimeType query)) := by
  have hsource : (blockOf b).mapNamed (blockOf b).mimeType.source = some (blockOf b).mimeTypes := rfl
  unfold LookupFunction.run
  rw [hsource, Option.bind_some, run_mimeTypes hp]
  have hfound := lookup_mapValues Asset.mime (AssetIndex.ofBundle b).byPath query
  unfold AssetIndex.mimeType
  -- only a path that is not in the index gets the fallback
  cases hl : (AssetIndex.ofBundle b).byPath.lookup query with
  | none =>
    rw [hl] at hfound
    exact congrArg (fun found => some (Option.or found (some MediaType.octetStream))) hfound
  | some a =>
    rw [hl] at hfound
    exact congrArg (fun found => some (Option.or found (some MediaType.octetStream))) hfound

/-! ## §6. The generated accessors. -/

/-- What the accessors of a file do where the constants `declared` are
visible: they are the functions of `block` printed, every name in them means
one constant, and run they answer as the index of the bundle. -/
structure Agrees (target : Target) (b : Bundle) (declared : Scope) (entries : List IndexEntry)
    (block : Block) : Prop where
  printed : target.accessors entries = block.print target
  one_meaning : ∀ f ∈ block.maps, ∀ i ∈ f.insertions, MeansOneConstant declared i.ident
  files : block.files.run Meaning.bytes? (declared ++ functions)
    = some (AssetIndex.ofBundle b).files
  paths : block.paths.run Meaning.text? (declared ++ functions)
    = some (AssetIndex.ofBundle b).paths
  mimeTypes : block.mimeTypes.run Meaning.text? (declared ++ functions)
    = some (AssetIndex.ofBundle b).mimeTypes
  file : ∀ query, block.file.run Meaning.bytes? (declared ++ functions) block query
    = some ((AssetIndex.ofBundle b).file? query)
  mimeType : ∀ query,
    (block.mimeType.run Meaning.text? (declared ++ functions) block query).map
        (Option.or · block.mimeType.fallback)
      = some (some ((AssetIndex.ofBundle b).mimeType query))

/-- In every accepted plan the last file is the index.  It holds one block of
accessors, and these answer as the index of the bundle, whatever the target
and the mode. -/
theorem accessors_agree_with_index {b : Bundle} {s : Settings} {us : List SourceUnit}
    (h : plan b s = .ok us) :
    ∃ index entries, us.getLast? = some index ∧ index.kind = .index
      ∧ index.accessors? = some entries
      ∧ Agrees s.target b (visible s.target us index) entries (.ofEntries entries) := by
  obtain ⟨rfl, hp⟩ := accepted_of_plan h
  have hlast : (units b s).getLast? = some (indexUnit b s) := by
    unfold units
    cases s.mode <;> simp
  refine ⟨indexUnit b s, b.assets.map Asset.indexEntry, hlast, rfl, accessors?_indexUnit b s, ?_⟩
  rw [visible_index hp]
  refine
    { printed := accessors_eq_print s.target _
      one_meaning := fun f hf i hi => ?_
      files := run_files hp
      paths := run_paths hp
      mimeTypes := run_mimeTypes hp
      file := run_file hp
      mimeType := run_mimeType hp }
  -- each of the three maps inserts one identifier of every asset
  have hasset : ∃ a ∈ b.assets, i.ident ∈ a.idents := by
    simp only [Block.maps, Block.ofEntries, List.map_map, List.mem_cons, List.not_mem_nil,
      or_false] at hf
    rcases hf with rfl | rfl | rfl <;>
    · obtain ⟨a, ha, rfl⟩ := List.mem_map.1 hi
      exact ⟨a, ha, by simp [Asset.indexEntry, Asset.idents, Asset.pathIdent, Asset.mimeIdent]⟩
  obtain ⟨a, ha, hident⟩ := hasset
  exact meansOneConstant hp ha hident

/-- In headers of their own, a script and a page are found under their names. -/
theorem accessors_agree_for_scriptAndPage :
    ∃ us, plan scriptAndPage { Settings.default with mode := .split } = .ok us
      ∧ ∃ index entries, us.getLast? = some index ∧ index.kind = .index
        ∧ index.accessors? = some entries
        ∧ Agrees .cpp scriptAndPage (visible .cpp us index) entries (.ofEntries entries) :=
  ⟨_, rfl, accessors_agree_with_index (s := { Settings.default with mode := .split }) rfl⟩

end Accessors

end AssetEmbed
