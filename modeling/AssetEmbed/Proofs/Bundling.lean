/-
  AssetEmbed.Proofs.Bundling — which assets can be bundled.

  Assets are looked at in byte order of their paths, and each identifier is
  compared with all those before it.  So the first identifier that comes again
  is reported; and what is reported depends on the paths alone, since assets of
  equal paths have equal identifiers.

  Main results:
    * `firstClash_eq_none_iff` — nothing is reported just if all identifiers differ.
    * `repeatsAfter_of_clash`  — what is reported otherwise.
    * `ofAssets_perm`          — the order in which assets are given does not matter.
    * `ofAssets_exact`         — assets are bundled just if no identifier comes twice.
-/
import AssetEmbed.Bundle.Basic
import Mathlib.Data.List.Nodup

namespace AssetEmbed

/-! ## §1. Order. -/

theorem sortAssets_perm (assets : List Asset) : (sortAssets assets).Perm assets :=
  Order.sortBy_perm Asset.precedes assets

theorem pairwise_sortAssets (assets : List Asset) :
    (sortAssets assets).Pairwise fun a b => a.precedes b = true :=
  Order.pairwise_sortBy Asset.precedes_total Asset.precedes_trans assets

/-- Assets that precede each other have one path. -/
theorem Asset.path_eq_of_precedes {a b : Asset} (hab : a.precedes b = true)
    (hba : b.precedes a = true) : a.path = b.path := by
  simp only [Asset.precedes, decide_eq_true_eq] at hab hba
  exact Utf8.encode_injective (List.le_antisymm hab hba)

/-- Assets of different paths have one order. -/
theorem sortAssets_eq_of_perm {as bs : List Asset} (h : as.Perm bs)
    (hpaths : ∀ a ∈ as, ∀ b ∈ as, a.path = b.path → a = b) : sortAssets as = sortAssets bs := by
  have hperm : (sortAssets as).Perm (sortAssets bs) :=
    ((sortAssets_perm as).trans h).trans (sortAssets_perm bs).symm
  refine hperm.eq_of_pairwise (fun a b ha hb hab hba => ?_) (pairwise_sortAssets as)
    (pairwise_sortAssets bs)
  exact hpaths a (Order.mem_sortBy.1 ha) b (h.mem_iff.2 (Order.mem_sortBy.1 hb))
    (Asset.path_eq_of_precedes hab hba)

/-- The paths have one order, even where assets share a path. -/
theorem map_path_sortAssets_of_perm {as bs : List Asset} (h : as.Perm bs) :
    (sortAssets as).map Asset.path = (sortAssets bs).map Asset.path := by
  have hsorted (assets : List Asset) : ((sortAssets assets).map Asset.path).Pairwise
      fun p q => Utf8.encode p ≤ Utf8.encode q :=
    List.pairwise_map.2 ((pairwise_sortAssets assets).imp fun hab => by
      simpa only [Asset.precedes, decide_eq_true_eq] using hab)
  have hperm : (sortAssets as).Perm (sortAssets bs) :=
    ((sortAssets_perm as).trans h).trans (sortAssets_perm bs).symm
  refine (hperm.map Asset.path).eq_of_pairwise (fun p q _ _ hpq hqp => ?_) (hsorted as) (hsorted bs)
  exact Utf8.encode_injective (List.le_antisymm hpq hqp)

/-! ## §2. The first identifier that comes again. -/

/-- The entries up to a clash have different identifiers, and one of them has
that of the next entry. -/
theorem firstClash_eq_some {seen rest : List (String × String)} {clash : Clash}
    (h : firstClash seen rest = some clash) (hn : (seen.map Prod.fst).Nodup) :
    ∃ before after, rest = before ++ (clash.ident, clash.second) :: after
      ∧ ((seen ++ before).map Prod.fst).Nodup ∧ (clash.ident, clash.first) ∈ seen ++ before := by
  induction rest generalizing seen with
  | nil => cases h
  | cons entry rest ih =>
    obtain ⟨ident, path⟩ := entry
    rw [firstClash] at h
    split at h
    · next first hfirst =>
      cases h
      obtain ⟨earlier, later, hseen, -⟩ := List.lookup_eq_some_iff.1 hfirst
      have hmem : (ident, first) ∈ seen := by
        rw [hseen]
        exact List.mem_append_right _ List.mem_cons_self
      exact ⟨[], rest, rfl, by simpa using hn, by simpa using hmem⟩
    · next hnone =>
      -- the identifiers passed stay different with one that was not among them
      have hnew : ((seen ++ [(ident, path)]).map Prod.fst).Nodup := by
        rw [List.map_append, List.nodup_append]
        refine ⟨hn, List.nodup_singleton _, fun i hi j hj heq => ?_⟩
        obtain ⟨entry, he, rfl⟩ := List.mem_map.1 hi
        have hdiffers := List.lookup_eq_none_iff.1 hnone entry he
        rw [heq, List.mem_singleton.1 hj] at hdiffers
        simp at hdiffers
      obtain ⟨before, after, rfl, hnodup, hmem⟩ := ih h hnew
      refine ⟨(ident, path) :: before, after, rfl, ?_, ?_⟩
      · simpa using hnodup
      · simpa using hmem

/-- Nothing is reported just if all identifiers differ. -/
theorem firstClash_eq_none_iff {entries : List (String × String)} :
    firstClash [] entries = none ↔ (entries.map Prod.fst).Nodup := by
  refine ⟨nodup_of_firstClash_eq_none, fun hn => ?_⟩
  cases hclash : firstClash [] entries with
  | none => rfl
  | some clash =>
    obtain ⟨before, after, rfl, -, hmem⟩ := firstClash_eq_some hclash List.nodup_nil
    rw [List.map_append, List.nodup_append] at hn
    have hfirst : clash.ident ∈ before.map Prod.fst := List.mem_map.2 ⟨_, hmem, rfl⟩
    exact absurd rfl (hn.2.2 _ hfirst clash.ident (by simp))

/-- An element of joined lists stands in one of them, behind all the lists before. -/
theorem flatMap_eq_append_cons {α β : Type} {f : α → List β} {xs : List α} {before after : List β}
    {y : β} (h : xs.flatMap f = before ++ y :: after) :
    ∃ front x rest own later, xs = front ++ x :: rest ∧ f x = own ++ y :: later
      ∧ before = front.flatMap f ++ own := by
  induction xs generalizing before with
  | nil => simp at h
  | cons x xs ih =>
    rw [List.flatMap_cons] at h
    rcases List.append_eq_append_iff.1 h with ⟨more, rfl, hmore⟩ | ⟨own, hown, hmore⟩
    · obtain ⟨front, x', rest, own, later, rfl, hx', rfl⟩ := ih hmore
      exact ⟨x :: front, x', rest, own, later, rfl, hx', by simp⟩
    · cases own with
      | nil =>
        -- the first list ends right before the element
        have htail : xs.flatMap f = [] ++ y :: after := hmore.symm
        obtain ⟨front, x', rest, own, later, rfl, hx', hnil⟩ := ih htail
        refine ⟨x :: front, x', rest, own, later, rfl, hx', ?_⟩
        rw [List.flatMap_cons, List.append_assoc, ← hnil, hown]
        simp
      | cons y' later =>
        obtain ⟨rfl, -⟩ := List.cons.inj hmore
        exact ⟨[], x, xs, before, later, rfl, hown, by simp⟩

theorem Asset.nodup_idents (a : Asset) : a.idents.Nodup := by
  have hself : ∀ {suffix : String}, suffix ≠ "" → a.symbol ≠ a.symbol ++ suffix := by
    intro suffix hne heq
    have hlist := congrArg String.toList heq
    rw [String.toList_append, List.self_eq_append_right] at hlist
    exact hne (String.toList_inj.1 hlist)
  have hsuffix : a.pathIdent ≠ a.mimeIdent := by
    intro heq
    have hlist := congrArg String.toList heq
    rw [pathIdent, mimeIdent, String.toList_append, String.toList_append] at hlist
    exact absurd (List.append_cancel_left hlist) (by decide)
  have hpath : a.symbol ≠ a.pathIdent := hself (by decide)
  have hmime : a.symbol ≠ a.mimeIdent := hself (by decide)
  simp [idents, hpath, hmime, hsuffix]

/-- Whether an asset is the first that repeats an identifier of those before
it, and a clash tells which. -/
structure RepeatsAfter (front : List Asset) (b : Asset) (clash : Clash) : Prop where
  /-- The assets before it repeat nothing. -/
  fresh : (front.flatMap Asset.idents).Nodup
  /-- The identifier was derived from an asset before it. -/
  first : ∃ a ∈ front, a.path = clash.first ∧ clash.ident ∈ a.idents
  second : b.path = clash.second
  /-- Of its identifiers, in their order, this is the first that was derived before. -/
  ident : ∃ own later, b.idents = own ++ clash.ident :: later
    ∧ ∀ i ∈ own, i ∉ front.flatMap Asset.idents

/-- What is reported is the first asset that repeats an identifier. -/
theorem repeatsAfter_of_clash {assets : List Asset} {clash : Clash}
    (h : firstClash [] (declarations assets) = some clash) :
    ∃ front b rest, assets = front ++ b :: rest ∧ RepeatsAfter front b clash := by
  obtain ⟨before, after, hsplit, hnodup, hmem⟩ := firstClash_eq_some h List.nodup_nil
  obtain ⟨front, b, rest, own, later, rfl, hb, rfl⟩ := flatMap_eq_append_cons hsplit
  -- the entries before are those of the assets before, and some of the asset itself
  obtain ⟨mine, others, hidents, rfl, hothers⟩ := List.map_eq_append_iff.1 hb
  obtain ⟨ident, theirs, rfl, hentry, -⟩ := List.map_eq_cons_iff.1 hothers
  obtain ⟨rfl, hpath⟩ := Prod.ext_iff.1 hentry
  have hfront : (declarations front).map Prod.fst = front.flatMap Asset.idents :=
    map_fst_declarations front
  rw [List.nil_append] at hnodup hmem
  rw [List.map_append, List.nodup_append] at hnodup
  obtain ⟨hfresh, -, hapart⟩ := hnodup
  refine ⟨front, b, rest, rfl, hfront ▸ hfresh, ?_, hpath, mine, theirs, hidents, ?_⟩
  · rcases List.mem_append.1 hmem with hmem | hmem
    · obtain ⟨a, ha, hdeclared⟩ := List.mem_flatMap.1 hmem
      obtain ⟨i, hi, heq⟩ := List.mem_map.1 hdeclared
      obtain ⟨rfl, hfirst⟩ := Prod.ext_iff.1 heq
      exact ⟨a, ha, hfirst, hi⟩
    -- an asset does not derive an identifier twice
    · obtain ⟨i, hi, heq⟩ := List.mem_map.1 hmem
      have hown := b.nodup_idents
      rw [hidents, List.nodup_append] at hown
      exact absurd (congrArg Prod.fst heq) (hown.2.2 i hi _ List.mem_cons_self)
  · intro i hi hmem
    exact hapart i (hfront ▸ hmem) i (List.mem_map.2 ⟨_, List.mem_map.2 ⟨i, hi, rfl⟩, rfl⟩) rfl

/-! ## §3. Bundles. -/

theorem ofAssets_of_clash {root : Path} {assets : List Asset} {clash : Clash}
    (h : firstClash [] (declarations (sortAssets assets)) = some clash) :
    Bundle.ofAssets root assets = .error (.collision clash.ident clash.first clash.second) := by
  unfold Bundle.ofAssets
  split
  · next c hc =>
    rw [h] at hc
    cases hc
    rfl
  · next hc =>
    rw [h] at hc
    cases hc

theorem ofAssets_of_unclashed (root : Path) {assets : List Asset}
    (h : firstClash [] (declarations (sortAssets assets)) = none) :
    ∃ b, Bundle.ofAssets root assets = .ok b ∧ b.root = root ∧ b.assets = sortAssets assets := by
  unfold Bundle.ofAssets
  split
  · next c hc =>
    rw [h] at hc
    cases hc
  · exact ⟨_, rfl, rfl, rfl⟩

/-- Only the order of assets matters for their bundle. -/
theorem ofAssets_congr {root : Path} {assets assets' : List Asset}
    (h : sortAssets assets = sortAssets assets') :
    Bundle.ofAssets root assets = Bundle.ofAssets root assets' := by
  cases hclash : firstClash [] (declarations (sortAssets assets)) with
  | some clash => rw [ofAssets_of_clash hclash, ofAssets_of_clash (h ▸ hclash)]
  | none =>
    obtain ⟨b, hb, hroot, hassets⟩ := ofAssets_of_unclashed root hclash
    obtain ⟨b', hb', hroot', hassets'⟩ := ofAssets_of_unclashed root (h ▸ hclash)
    have hsame := hassets.trans (h.trans hassets'.symm)
    rw [hb, hb']
    cases b
    cases b'
    cases hroot
    cases hroot'
    cases hsame
    rfl

/-- Identifiers come from paths. -/
theorem declarations_congr {as bs : List Asset} (h : as.map Asset.path = bs.map Asset.path) :
    declarations as = declarations bs := by
  have hpaths (assets : List Asset) : declarations assets = (assets.map Asset.path).flatMap fun p =>
      (Asset.mk p []).idents.map fun ident => (ident, p) := by
    unfold declarations
    rw [List.flatMap_map]
    rfl
  rw [hpaths as, hpaths bs, h]

/-- The identifiers of assets differ after sorting just if they did before. -/
theorem unclashed_iff {assets : List Asset} :
    firstClash [] (declarations (sortAssets assets)) = none
      ↔ (assets.flatMap Asset.idents).Nodup := by
  rw [firstClash_eq_none_iff, map_fst_declarations]
  exact ((sortAssets_perm assets).flatMap_right Asset.idents).nodup_iff

/-- Assets with different identifiers have different paths. -/
theorem eq_of_path_eq {assets : List Asset} (h : (assets.flatMap Asset.idents).Nodup) {a b : Asset}
    (ha : a ∈ assets) (hb : b ∈ assets) (hpath : a.path = b.path) : a = b := by
  obtain ⟨front, rest, rfl⟩ := List.append_of_mem ha
  have hshared : a.symbol ∈ b.idents := by simp [Asset.idents, Asset.symbol, hpath]
  rw [List.flatMap_append, List.nodup_append] at h
  obtain ⟨-, hrest, hapart⟩ := h
  rcases List.mem_append.1 hb with hb | hb
  · exact absurd rfl (hapart a.symbol (List.mem_flatMap.2 ⟨b, hb, hshared⟩) a.symbol
      (List.mem_flatMap.2 ⟨a, List.mem_cons_self, by simp [Asset.idents]⟩))
  · rcases List.mem_cons.1 hb with rfl | hb
    · rfl
    · exact absurd hpath (path_ne_of_nodup hrest hb)

/-- In what order assets are given makes no difference, also where they cannot be bundled. -/
theorem ofAssets_perm {root : Path} {as bs : List Asset} (h : as.Perm bs) :
    Bundle.ofAssets root as = Bundle.ofAssets root bs := by
  cases hclash : firstClash [] (declarations (sortAssets as)) with
  | some clash =>
    have hsame := declarations_congr (map_path_sortAssets_of_perm h)
    rw [ofAssets_of_clash hclash, ofAssets_of_clash (hsame ▸ hclash)]
  | none =>
    have hnodup := unclashed_iff.1 hclash
    exact ofAssets_congr (sortAssets_eq_of_perm h fun a ha b hb => eq_of_path_eq hnodup ha hb)

/-- Assets are bundled just if no identifier is derived twice.  A bundle holds
them all, in byte order of their paths.  Otherwise the first asset in this order
that repeats an identifier is reported, with the one that had it before.  How
the assets were ordered when they were given makes no difference. -/
theorem ofAssets_exact (root : Path) (assets : List Asset) :
    ((∃ b, Bundle.ofAssets root assets = .ok b) ↔ (assets.flatMap Asset.idents).Nodup)
      ∧ (∀ b, Bundle.ofAssets root assets = .ok b → b.root = root ∧ b.assets.Perm assets
        ∧ b.assets.Pairwise fun a c => Utf8.encode a.path < Utf8.encode c.path)
      ∧ (∀ e, Bundle.ofAssets root assets = .error e →
        ∃ sorted clash front b rest, sorted.Perm assets
          ∧ (sorted.Pairwise fun a c => Utf8.encode a.path ≤ Utf8.encode c.path)
          ∧ sorted = front ++ b :: rest ∧ RepeatsAfter front b clash
          ∧ e = .collision clash.ident clash.first clash.second)
      ∧ ∀ others, others.Perm assets → Bundle.ofAssets root others = Bundle.ofAssets root assets := by
  refine ⟨?_, fun b hb => ?_, fun e he => ?_, fun others h => ofAssets_perm h⟩
  · rw [← unclashed_iff]
    cases hclash : firstClash [] (declarations (sortAssets assets)) with
    | some clash => simp [ofAssets_of_clash hclash]
    | none =>
      obtain ⟨b, hb, -⟩ := ofAssets_of_unclashed root hclash
      simp [hb]
  · cases hclash : firstClash [] (declarations (sortAssets assets)) with
    | some clash =>
      rw [ofAssets_of_clash hclash] at hb
      cases hb
    | none =>
      obtain ⟨b', hb', hroot, hassets⟩ := ofAssets_of_unclashed root hclash
      rw [hb'] at hb
      cases hb
      exact ⟨hroot, hassets ▸ sortAssets_perm assets, b.sorted⟩
  · cases hclash : firstClash [] (declarations (sortAssets assets)) with
    | some clash =>
      rw [ofAssets_of_clash hclash] at he
      cases he
      obtain ⟨front, b, rest, hsplit, hrepeats⟩ := repeatsAfter_of_clash hclash
      have hsorted := (pairwise_sortAssets assets).imp fun {a c} hac => by
        simpa only [Asset.precedes, decide_eq_true_eq] using hac
      exact ⟨_, clash, front, b, rest, sortAssets_perm assets, hsorted, hsplit, hrepeats, rfl⟩
    | none =>
      obtain ⟨b, hb, -⟩ := ofAssets_of_unclashed root hclash
      rw [hb] at he
      cases he

/-- A file `x.path` takes the identifier of the path of `x`, in whatever order
the two are given. -/
example : Bundle.ofAssets (.ofString "web") [⟨"x.path", [1]⟩, ⟨"x", [2]⟩]
    = .error (.collision "x_path" "x" "x.path") := rfl

end AssetEmbed
