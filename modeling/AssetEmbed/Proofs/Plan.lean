/-
  AssetEmbed.Proofs.Plan — what an accepted plan is made of.

  A plan that is accepted is the list of all files of the bundle.  None of the
  identifiers in it is reserved, and each belongs to one asset.

  Main results:
    * `accepted_of_plan`     — an accepted plan, and what it promises.
    * `eq_of_mem_idents`     — an identifier belongs to one asset.
    * `nodup_fileNames`      — the files of a plan differ in more than case.
    * `accessors?_indexUnit` — the accessors of the index file.
-/
import AssetEmbed.Source.Plan
import Mathlib.Data.List.Nodup

namespace AssetEmbed

/-! ## §1. Accepted names. -/

/-- What an accepted plan promises of its names. -/
structure Accepted (b : Bundle) (s : Settings) : Prop where
  /-- No identifier of an asset is reserved. -/
  unreserved : ∀ a ∈ b.assets, ∀ ident ∈ a.idents, s.target.isReserved ident = false
  /-- With one file for each asset, no such file has the name of the index. -/
  index_apart : s.mode = .split → ∀ a ∈ b.assets, a.symbol ≠ s.indexName

theorem isReserved_eq_false_of_firstReserved {target : Target} {assets : List Asset}
    (h : firstReserved target assets = none) :
    ∀ a ∈ assets, ∀ ident ∈ a.idents, target.isReserved ident = false := by
  intro a ha ident hi
  have hn := List.findSome?_eq_none_iff.1 h a ha
  rw [Option.map_eq_none_iff, List.find?_eq_none] at hn
  simpa using hn ident hi

theorem symbol_notMem_taken {target : Target} {taken : Keyed String} {assets : List Asset}
    (h : firstFileClash target taken assets = none) :
    ∀ a ∈ assets, taken.lookup (MediaType.asciiLower a.symbol) = none := by
  induction assets generalizing taken with
  | nil => simp
  | cons a rest ih =>
    simp only [firstFileClash] at h
    split at h
    · cases h
    · next hn =>
      intro c hc
      rcases List.mem_cons.1 hc with rfl | hc
      · exact hn
      -- the names taken so far are among those taken after `a`
      · have := ih h c hc
        rw [List.lookup_append, Option.or_eq_none_iff] at this
        exact this.1

/-- A clash comes up at the first asset whose file takes a name that is taken. -/
theorem firstFileClash_eq_some {target : Target} {taken : Keyed String} {assets : List Asset}
    {e : BundleError} (h : firstFileClash target taken assets = some e) :
    ∃ front a rest first, assets = front ++ a :: rest
      ∧ firstFileClash target taken front = none
      ∧ (taken ++ front.map fun x => (MediaType.asciiLower x.symbol, x.path)).lookup
          (MediaType.asciiLower a.symbol) = some first
      ∧ e = .collision (target.fileName a.symbol) first a.path := by
  induction assets generalizing taken with
  | nil => cases h
  | cons a rest ih =>
    simp only [firstFileClash] at h
    split at h
    · next first hfirst =>
      cases h
      exact ⟨[], a, rest, first, rfl, rfl, by simpa using hfirst, rfl⟩
    · next hn =>
      obtain ⟨front, c, after, first, rfl, hnone, hlookup, he⟩ := ih h
      refine ⟨a :: front, c, after, first, rfl, ?_, by simpa using hlookup, he⟩
      simp only [firstFileClash, hn, hnone]

theorem nodup_of_firstFileClash {target : Target} {taken : Keyed String} {assets : List Asset}
    (h : firstFileClash target taken assets = none) :
    (assets.map fun a => MediaType.asciiLower a.symbol).Nodup := by
  induction assets generalizing taken with
  | nil => exact .nil
  | cons a rest ih =>
    simp only [firstFileClash] at h
    split at h
    · cases h
    -- the name of `a` is taken for those after it
    · refine List.nodup_cons.2 ⟨fun hm => ?_, ih h⟩
      obtain ⟨c, hc, heq⟩ := List.mem_map.1 hm
      have hnone := symbol_notMem_taken h c hc
      rw [List.lookup_append, Option.or_eq_none_iff] at hnone
      simp [heq] at hnone

/-- Without a clash the stems of the files differ in more than case, that of the
index included. -/
theorem nodup_stems {target : Target} {indexName text : String} {assets : List Asset}
    (h : firstFileClash target [(MediaType.asciiLower indexName, text)] assets = none) :
    (assets.map (fun a => MediaType.asciiLower a.symbol)
      ++ [MediaType.asciiLower indexName]).Nodup := by
  refine List.nodup_append.2
    ⟨nodup_of_firstFileClash h, List.nodup_singleton _, fun x hx y hy heq => ?_⟩
  obtain ⟨a, ha, rfl⟩ := List.mem_map.1 hx
  have hapart := symbol_notMem_taken h a ha
  simp [heq, List.mem_singleton.1 hy] at hapart

/-- An accepted plan is the list of units, and its names are in order. -/
theorem accepted_of_plan {b : Bundle} {s : Settings} {us : List SourceUnit}
    (h : plan b s = .ok us) : us = units b s ∧ Accepted b s := by
  unfold plan at h
  cases he : planError? b s with
  | some e => simp [he] at h
  | none =>
    simp only [he, Except.ok.injEq] at h
    refine ⟨h.symm, ?_⟩
    unfold planError? at he
    split at he
    · cases he
    · next hr =>
      -- the files are looked at with the name of the index already taken
      refine ⟨isReserved_eq_false_of_firstReserved hr, fun hm a ha heq => ?_⟩
      simp only [hm] at he
      have hl := symbol_notMem_taken he a ha
      simp [heq] at hl

/-- What is rendered is the plan, written out. -/
theorem render_eq_ok_iff {b : Bundle} {s : Settings} {files : List Rendered} :
    render b s = .ok files ↔ ∃ us, plan b s = .ok us ∧ files = us.map (·.rendered s) := by
  unfold render
  cases plan b s with
  | error e => simp [Except.map]
  | ok us => simp [Except.map, eq_comm]

theorem render_eq_error_iff {b : Bundle} {s : Settings} {e : BundleError} :
    render b s = .error e ↔ plan b s = .error e := by
  unfold render
  cases plan b s <;> simp [Except.map]

/-! ## §2. Assets. -/

/-- An identifier is declared for one asset. -/
theorem eq_of_mem_idents {assets : List Asset} (hn : (assets.flatMap Asset.idents).Nodup)
    {a c : Asset} (ha : a ∈ assets) (hc : c ∈ assets) {ident : String}
    (hi : ident ∈ a.idents) (hj : ident ∈ c.idents) : a = c := by
  induction assets with
  | nil => cases ha
  | cons x rest ih =>
    rw [List.flatMap_cons, List.nodup_append] at hn
    obtain ⟨-, hrest, hapart⟩ := hn
    -- the identifiers of the first asset do not come again
    have hx : ∀ d ∈ rest, ident ∈ x.idents → ident ∉ d.idents := fun d hd hxi hdi =>
      hapart ident hxi ident (List.mem_flatMap.2 ⟨d, hd, hdi⟩) rfl
    rcases List.mem_cons.1 ha with hax | ha <;> rcases List.mem_cons.1 hc with hcx | hc
    · rw [hax, hcx]
    · exact absurd hj (hx c hc (hax ▸ hi))
    · exact absurd hi (hx a ha (hcx ▸ hj))
    · exact ih hrest ha hc

theorem nodup_assets (b : Bundle) : b.assets.Nodup := by
  -- an asset that came twice would have a path before itself
  refine b.sorted.imp fun {a c} h heq => ?_
  rw [heq] at h
  exact List.lt_irrefl _ h

/-! ## §3. Files. -/

theorem fileName_injective (target : Target) {x y : String}
    (h : target.fileName x = target.fileName y) : x = y := by
  unfold Target.fileName at h
  rw [String.append_assoc, String.append_assoc] at h
  exact String.append_left_inj _ |>.1 h

/-- Extensions have no capitals. -/
theorem asciiLower_fileName (target : Target) (stem : String) :
    MediaType.asciiLower (target.fileName stem)
      = target.fileName (MediaType.asciiLower stem) := by
  have hsuffix : ("." ++ target.extension).toList.map Char.toLower
      = ("." ++ target.extension).toList := by cases target <;> decide
  unfold MediaType.asciiLower Target.fileName
  rw [String.append_assoc, String.append_assoc, String.toList_append, List.map_append, hsuffix,
    String.ofList_append, String.ofList_toList]

/-- No two files of a plan have names that are equal when case is ignored. -/
theorem nodup_fileNames {b : Bundle} {s : Settings} {us : List SourceUnit}
    (h : plan b s = .ok us) :
    (us.map fun u => MediaType.asciiLower (s.target.fileName u.stem)).Nodup := by
  rw [(accepted_of_plan h).1]
  unfold units
  cases hm : s.mode with
  | combined => exact List.nodup_singleton _
  | split =>
    -- it is enough to compare the stems
    have hclash : firstFileClash s.target
        [(MediaType.asciiLower s.indexName, s.target.fileName s.indexName ++ " (index)")]
        b.assets = none := by
      unfold plan planError? at h
      split at h
      · cases h
      · next hnone =>
        split at hnone
        · cases hnone
        · rwa [hm] at hnone
    have hmap := (nodup_stems hclash).map fun _ _ => fileName_injective s.target
    simpa only [List.map_append, List.map_map, List.map_cons, List.map_nil, Function.comp_def,
      assetUnit, indexUnit, asciiLower_fileName] using hmap

/-- A file of a bundle is that of an asset or the index. -/
theorem eq_of_mem_units {b : Bundle} {s : Settings} {u : SourceUnit} (h : u ∈ units b s) :
    (s.mode = .split ∧ ∃ a ∈ b.assets, u = assetUnit a) ∨ u = indexUnit b s := by
  unfold units at h
  cases hm : s.mode with
  | combined =>
    rw [hm] at h
    exact .inr (List.mem_singleton.1 h)
  | split =>
    rw [hm] at h
    rcases List.mem_append.1 h with h | h
    · obtain ⟨a, ha, rfl⟩ := List.mem_map.1 h
      exact .inl ⟨rfl, a, ha, rfl⟩
    · exact .inr (List.mem_singleton.1 h)

theorem includes_indexUnit (b : Bundle) (s : Settings) :
    (indexUnit b s).includes
      = match s.mode with
        | .combined => []
        | .split => b.assets.map fun a => s.target.fileName a.symbol := by
  unfold SourceUnit.includes indexUnit indexContent
  cases s.mode with
  | combined =>
    simp [List.filterMap_append, List.filterMap_flatMap, Declaration.ofAsset]
  | split =>
    simp only [List.filterMap_append, List.filterMap_map, List.filterMap_cons_none,
      List.filterMap_nil, List.append_nil]
    exact congrFun List.filterMap_eq_map b.assets

/-- Accessors after declarations of other kinds are the accessors of the file. -/
theorem accessors?_of_append (stem : String) (kind : UnitKind) {content : List Declaration}
    (h : ∀ d ∈ content, ∀ entries, d ≠ .accessors entries) (entries : List IndexEntry) :
    (SourceUnit.mk stem kind (content ++ [.accessors entries])).accessors? = some entries := by
  induction content with
  | nil => rfl
  | cons d rest ih =>
    obtain ⟨hd, hrest⟩ := List.forall_mem_cons.1 h
    cases d with
    | accessors others => exact absurd rfl (hd others)
    | comment _ | bytes _ _ | text _ _ | «include» _ => exact ih hrest

theorem accessors?_indexUnit (b : Bundle) (s : Settings) :
    (indexUnit b s).accessors? = some (b.assets.map Asset.indexEntry) := by
  refine accessors?_of_append _ _ (fun d hd entries heq => ?_) _
  unfold indexContent at hd
  subst heq
  cases hm : s.mode <;> simp [hm, Declaration.ofAsset] at hd

/-! ## §4. A bundle of two files. -/

/-- A bundle of a script and a page. -/
def scriptAndPage : Bundle where
  root := .ofString "/web"
  assets := [⟨"app.js", [0x61]⟩, ⟨"index.html", [0x3C, 0x68]⟩]
  sorted := by decide
  idents_nodup := by decide

end AssetEmbed
