/-
  AssetEmbed.Proofs.Listing — the rows of a listing.

  A listing is read back from the index of a bundle: all rows through the three
  maps, and the rows that are asked for through the look-ups.  No two assets of a
  bundle share a path, so the index holds every asset under its own path, and the
  two ways agree.

  Main results:
    * `byPath_ofBundle`  — what the index of a bundle holds.
    * `ofBundle_eq`      — all rows are the rows of the assets.
    * `ofQueries_eq`     — the rows that are asked for, query by query.
    * `listing_faithful` — what a listing says of a bundle.
-/
import AssetEmbed.Bundle.Listing
import AssetEmbed.Proofs.Bundling
import AssetEmbed.Proofs.Plan
import Mathlib.Data.List.Dedup

namespace AssetEmbed

/-! ## §1. The index of a bundle. -/

/-- The paths of a bundle differ, since the identifiers that come from them do. -/
theorem nodup_paths (b : Bundle) : (b.assets.map Asset.path).Nodup :=
  (nodup_assets b).map_on fun _ ha _ hc hpath => eq_of_path_eq b.idents_nodup ha hc hpath

/-- New paths go to the end of an index, one after another. -/
theorem foldl_put_path {assets : List Asset} {entries : Keyed Asset}
    (h : (entries.map Prod.fst ++ assets.map Asset.path).Nodup) :
    assets.foldl (fun entries a => Keyed.put a.path a entries) entries
      = entries ++ assets.map fun a => (a.path, a) := by
  induction assets generalizing entries with
  | nil => exact (List.append_nil entries).symm
  | cons a rest ih =>
    have hnew : entries.lookup a.path = none := by
      refine Keyed.lookup_eq_none_iff.2 fun hmem => ?_
      exact (List.nodup_append.1 h).2.2 a.path hmem a.path (by simp) rfl
    rw [List.foldl_cons, Keyed.map_fst_put_new a hnew, ih (by simpa using h), List.map_cons,
      List.append_assoc]
    rfl

namespace AssetIndex

/-- The index of a bundle holds every asset under its path, and nothing else. -/
theorem byPath_ofBundle (b : Bundle) :
    (ofBundle b).byPath = b.assets.map fun a => (a.path, a) :=
  foldl_put_path (nodup_paths b)

/-- What a map over the assets holds under a path. -/
theorem lookup_map_path {α : Type} (f : Asset → α) (assets : List Asset) (query : String) :
    (assets.map fun a => (a.path, f a)).lookup query
      = (assets.find? fun a => a.path == query).map f := by
  induction assets with
  | nil => rfl
  | cons a rest ih =>
    rw [List.map_cons, List.lookup_cons, List.find?_cons, Bool.beq_comm]
    cases a.path == query with
    | true => rfl
    | false => exact ih

variable (b : Bundle)

theorem files_ofBundle : (ofBundle b).files = b.assets.map fun a => (a.path, a.bytes) := by
  rw [files, byPath_ofBundle, List.map_map]
  rfl

theorem paths_ofBundle : (ofBundle b).paths = b.assets.map fun a => (a.path, a.path) := by
  rw [paths, byPath_ofBundle, List.map_map]
  rfl

theorem mimeTypes_ofBundle : (ofBundle b).mimeTypes = b.assets.map fun a => (a.path, a.mime) := by
  rw [mimeTypes, byPath_ofBundle, List.map_map]
  rfl

/-- A map over the assets has as many keys as there are assets. -/
theorem length_dedup_keys {α : Type} (f : Asset → α) :
    ((b.assets.map fun a => (a.path, f a)).map Prod.fst).dedup.length = b.assets.length := by
  rw [List.map_map]
  show (b.assets.map Asset.path).dedup.length = _
  rw [List.dedup_eq_self.2 (nodup_paths b), List.length_map]

end AssetIndex

/-! ## §2. Rows. -/

namespace Row

/-- The row of an asset. -/
def ofAsset (a : Asset) : Row := ⟨a.path, some a.symbol, a.mime, some a.bytes.length⟩

/-- The row of a path that is not bundled. -/
def unbundled (query : String) : Row := ⟨query, none, "application/octet-stream", none⟩

/-- Whether a row answers a query: it is the row with that path, or the row of a
path that is not bundled if there is none. -/
inductive Answers (rows : List Row) (query : String) : Row → Prop where
  | bundled {r : Row} (hr : r ∈ rows) (hpath : r.path = query) : Answers rows query r
  | unbundled (hnone : ∀ r ∈ rows, r.path ≠ query) : Answers rows query (unbundled query)

variable {b : Bundle}

/-- An asset is found under its path. -/
theorem find?_path {a : Asset} (ha : a ∈ b.assets) :
    (b.assets.find? fun c => c.path == a.path) = some a := by
  cases hfound : b.assets.find? fun c => c.path == a.path with
  | none => simpa using List.find?_eq_none.1 hfound a ha
  | some c =>
    have hpath : c.path = a.path := by simpa using List.find?_some hfound
    rw [eq_of_path_eq b.idents_nodup (List.mem_of_find?_eq_some hfound) ha hpath]

/-- No look-up drops a row. -/
theorem ofBundle_eq (b : Bundle) : ofBundle b = b.assets.map ofAsset := by
  unfold ofBundle
  dsimp only
  rw [AssetIndex.files_ofBundle, AssetIndex.paths_ofBundle, AssetIndex.mimeTypes_ofBundle]
  refine (List.filterMap_congr fun a ha => ?_).trans (congrFun List.filterMap_eq_map b.assets)
  -- the first look-up gives the path with which the others are made
  simp only [AssetIndex.lookup_map_path, find?_path ha, Option.map_some, Option.bind_eq_bind,
    Option.bind_some]
  rfl

/-- The row of a query, by the asset that has this path. -/
def ofQuery (b : Bundle) (query : String) : Row :=
  ((b.assets.find? fun a => a.path == query).map ofAsset).getD (unbundled query)

theorem ofQueries_eq (b : Bundle) (queries : List String) :
    ofQueries b queries = queries.map (ofQuery b) := by
  unfold ofQueries
  refine List.map_congr_left fun query _ => ?_
  unfold ofQuery AssetIndex.mimeType AssetIndex.file?
  rw [AssetIndex.byPath_ofBundle, AssetIndex.lookup_map_path, Option.map_id']
  cases hfound : b.assets.find? fun a => a.path == query with
  | none => rfl
  | some a =>
    have hpath : a.path = query := by simpa using List.find?_some hfound
    rw [← hpath]
    rfl

theorem answers_ofQuery (b : Bundle) (query : String) :
    Answers (ofBundle b) query (ofQuery b query) := by
  unfold ofQuery
  rw [ofBundle_eq]
  cases hfound : b.assets.find? fun a => a.path == query with
  | none =>
    refine .unbundled fun r hr => ?_
    obtain ⟨a, ha, rfl⟩ := List.mem_map.1 hr
    have hother : a.path ≠ query := by simpa using List.find?_eq_none.1 hfound a ha
    exact hother
  | some a =>
    have hpath : a.path = query := by simpa using List.find?_some hfound
    exact .bundled (List.mem_map_of_mem (List.mem_of_find?_eq_some hfound)) hpath

/-- Rows that answer queries have a size if they have a symbol, and otherwise
none, if this is so of the rows that they are taken from. -/
theorem Answers.isSome_eq {rows : List Row} {query : String} {r : Row}
    (hrows : ∀ r ∈ rows, r.symbol.isSome = r.size.isSome) (h : Answers rows query r) :
    r.symbol.isSome = r.size.isSome := by
  cases h with
  | bundled hr _ => exact hrows r hr
  | unbundled _ => rfl

/-- A listing of a bundle has one row for each asset, in the order of the bundle,
with all that there is to say of it.  A listing of queries has one row for each
query, in the order of the queries: the row of the bundle with this path, which
is the only one, or else a row that says that the path is not bundled.  The maps
behind both have as many keys as there are assets. -/
theorem listing_faithful (b : Bundle) (queries : List String) :
    ofBundle b = b.assets.map ofAsset
      ∧ ((ofBundle b).map Row.path).Nodup
      ∧ List.Forall₂ (Answers (ofBundle b)) queries (ofQueries b queries)
      ∧ (∀ r ∈ ofBundle b ++ ofQueries b queries, r.symbol.isSome = r.size.isSome)
      ∧ ((AssetIndex.ofBundle b).files.map Prod.fst).dedup.length = b.assets.length
      ∧ ((AssetIndex.ofBundle b).paths.map Prod.fst).dedup.length = b.assets.length
      ∧ ((AssetIndex.ofBundle b).mimeTypes.map Prod.fst).dedup.length = b.assets.length := by
  have hrows : ∀ r ∈ ofBundle b, r.symbol.isSome = r.size.isSome := by
    intro r hr
    rw [ofBundle_eq] at hr
    obtain ⟨a, -, rfl⟩ := List.mem_map.1 hr
    rfl
  refine ⟨ofBundle_eq b, ?_, ?_, fun r hr => ?_, ?_, ?_, ?_⟩
  · rw [ofBundle_eq, List.map_map]
    exact nodup_paths b
  · rw [ofQueries_eq, List.forall₂_map_right_iff, List.forall₂_same]
    exact fun query _ => answers_ofQuery b query
  · rcases List.mem_append.1 hr with hr | hr
    · exact hrows r hr
    · rw [ofQueries_eq] at hr
      obtain ⟨query, -, rfl⟩ := List.mem_map.1 hr
      exact (answers_ofQuery b query).isSome_eq hrows
  · rw [AssetIndex.files_ofBundle]
    exact AssetIndex.length_dedup_keys b Asset.bytes
  · rw [AssetIndex.paths_ofBundle]
    exact AssetIndex.length_dedup_keys b Asset.path
  · rw [AssetIndex.mimeTypes_ofBundle]
    exact AssetIndex.length_dedup_keys b Asset.mime

/-- A query that comes twice is answered twice. -/
example : (ofQueries scriptAndPage ["b", "index.html", "b"]).map (·.size)
    = [none, some 2, none] := by
  decide

end Row

end AssetEmbed
