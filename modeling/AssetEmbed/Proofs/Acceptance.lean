/-
  AssetEmbed.Proofs.Acceptance — which bundles can be generated.

  A bundle is refused for an identifier that the target reserves, and with one
  file for each asset also for file names that are equal when case is ignored.
  Both are looked for in the order of the paths, reserved identifiers first.

  Main results:
    * `isReserved_iff`               — the rules by which names are reserved.
    * `firstReserved_eq_none_iff`    — no identifier is reserved.
    * `clashesAfter_of_firstFileClash` — which clash of files is reported.
    * `plan_exact`                   — which bundles are planned, and why others are not.
-/
import AssetEmbed.Proofs.Modes

namespace AssetEmbed

/-! ## §1. Reserved names. -/

/-- The names that no declaration of a target may have. -/
inductive Reserved : Target → String → Prop where
  | cppKeyword {ident : String} (h : ident ∈ cppKeywords) : Reserved .cpp ident
  | cppMacro {ident : String} (h : ident ∈ cppMacros) : Reserved .cpp ident
  /-- C++ keeps names that hold two underscores next to each other for its
  implementation. -/
  | doubleUnderscore {ident : String} (h : ['_', '_'] <:+: ident.toList) : Reserved .cpp ident
  /-- It also keeps names that begin with an underscore and a capital. -/
  | underscoreCapital {ident : String} {c : Char} (hc : 'A' ≤ c ∧ c ≤ 'Z')
      (h : ['_', c] <+: ident.toList) : Reserved .cpp ident
  | rustKeyword {ident : String} (h : ident ∈ rustKeywords) : Reserved .rust ident
  | accessor {target : Target} {ident : String} (h : ident ∈ accessorNames) :
      Reserved target ident
  | accessorLocal {target : Target} {ident : String} (h : ident ∈ accessorLocals) :
      Reserved target ident

theorem hasDoubleUnderscore_iff {cs : List Char} :
    hasDoubleUnderscore cs = true ↔ ['_', '_'] <:+: cs := by
  fun_induction hasDoubleUnderscore cs with
  | case1 rest => exact ⟨fun _ => ⟨[], rest, rfl⟩, fun _ => rfl⟩
  | case2 c rest hne ih =>
    rw [ih, List.infix_cons_iff]
    refine ⟨.inr, fun h => h.resolve_left ?_⟩
    -- the two underscores are not the first characters
    rintro ⟨tail, htail⟩
    obtain ⟨hc, hrest⟩ := List.cons.inj htail
    exact hne tail hc.symm hrest.symm
  | case3 => simp

theorem isUpper_iff {c : Char} : c.isUpper = true ↔ 'A' ≤ c ∧ c ≤ 'Z' := by
  show decide (c.val ≥ 'A'.val ∧ c.val ≤ 'Z'.val) = true ↔ _
  rw [decide_eq_true_eq, Char.le_def, Char.le_def]

theorem startsUnderscoreCapital_iff {cs : List Char} :
    startsUnderscoreCapital cs = true ↔ ∃ c, ('A' ≤ c ∧ c ≤ 'Z') ∧ ['_', c] <+: cs := by
  constructor
  · intro h
    unfold startsUnderscoreCapital at h
    split at h
    · next c rest => exact ⟨c, isUpper_iff.1 h, rest, rfl⟩
    · cases h
  · rintro ⟨c, hc, rest, rfl⟩
    exact isUpper_iff.2 hc

theorem isAccessorName_iff {ident : String} :
    isAccessorName ident = true ↔ ident ∈ accessorNames ∨ ident ∈ accessorLocals := by
  unfold isAccessorName
  rw [Bool.or_eq_true, List.contains_iff_mem, List.contains_iff_mem]

/-- What is reserved is told by the rules. -/
theorem isReserved_iff (target : Target) (ident : String) :
    target.isReserved ident = true ↔ Reserved target ident := by
  cases target with
  | cpp =>
    simp only [Target.isReserved, isImplementationName, Bool.or_eq_true, List.contains_iff_mem,
      hasDoubleUnderscore_iff, startsUnderscoreCapital_iff, isAccessorName_iff]
    constructor
    · rintro (((h | h) | h | ⟨c, hc, h⟩) | h | h)
      · exact .cppKeyword h
      · exact .cppMacro h
      · exact .doubleUnderscore h
      · exact .underscoreCapital hc h
      · exact .accessor h
      · exact .accessorLocal h
    · rintro (h | h | h | ⟨hc, h⟩ | - | h | h)
      · exact .inl (.inl (.inl h))
      · exact .inl (.inl (.inr h))
      · exact .inl (.inr (.inl h))
      · exact .inl (.inr (.inr ⟨_, hc, h⟩))
      · exact .inr (.inl h)
      · exact .inr (.inr h)
  | rust =>
    simp only [Target.isReserved, Bool.or_eq_true, List.contains_iff_mem, isAccessorName_iff]
    constructor
    · rintro (h | h | h)
      · exact .rustKeyword h
      · exact .accessor h
      · exact .accessorLocal h
    · rintro (- | - | - | - | h | h | h)
      · exact .inl h
      · exact .inr (.inl h)
      · exact .inr (.inr h)

theorem isReserved_eq_false_iff (target : Target) (ident : String) :
    target.isReserved ident = false ↔ ¬ Reserved target ident := by
  rw [← isReserved_iff, Bool.not_eq_true]

/-! ## §2. The first reserved identifier. -/

/-- Whether an asset is the first with a reserved identifier after the assets in
front of it, and this is its first. -/
structure ReservedAfter (target : Target) (front : List Asset) (a : Asset) (ident : String) :
    Prop where
  fresh : ∀ c ∈ front, ∀ i ∈ c.idents, ¬ Reserved target i
  reserved : Reserved target ident
  /-- The identifiers of the asset in front of this one may be used. -/
  ident : ∃ own later, a.idents = own ++ ident :: later ∧ ∀ i ∈ own, ¬ Reserved target i

theorem firstReserved_eq_none_iff {target : Target} {assets : List Asset} :
    firstReserved target assets = none ↔ ∀ a ∈ assets, ∀ i ∈ a.idents, ¬ Reserved target i := by
  simp only [firstReserved, List.findSome?_eq_none_iff, Option.map_eq_none_iff, List.find?_eq_none,
    isReserved_iff]

/-- What is reported is the first reserved identifier. -/
theorem reservedAfter_of_firstReserved {target : Target} {assets : List Asset} {e : BundleError}
    (h : firstReserved target assets = some e) :
    ∃ front a rest ident, assets = front ++ a :: rest ∧ ReservedAfter target front a ident
      ∧ e = .reserved ident a.path target.label := by
  obtain ⟨front, a, rest, rfl, hfound, hnone⟩ := List.findSome?_eq_some_iff.1 h
  obtain ⟨ident, hident, rfl⟩ := Option.map_eq_some_iff.1 hfound
  obtain ⟨hreserved, own, later, hsplit, hown⟩ := List.find?_eq_some_iff_append.1 hident
  refine ⟨front, a, rest, ident, rfl, ⟨?_, (isReserved_iff _ _).1 hreserved, own, later, hsplit, ?_⟩,
    rfl⟩
  · exact firstReserved_eq_none_iff.1 (List.findSome?_eq_none_iff.2 hnone)
  · intro i hi
    exact (isReserved_eq_false_iff _ _).1 (by simpa using hown i hi)

/-! ## §3. The first clash of files. -/

/-- The name of the file with a stem, as a file system sees it that ignores case. -/
def foldedName (target : Target) (stem : String) : String :=
  MediaType.asciiLower (target.fileName stem)

theorem foldedName_eq_iff {target : Target} {x y : String} :
    foldedName target x = foldedName target y
      ↔ MediaType.asciiLower x = MediaType.asciiLower y := by
  unfold foldedName
  rw [asciiLower_fileName, asciiLower_fileName]
  exact ⟨fileName_injective target, fun h => h ▸ rfl⟩

/-- Whether the file of an asset is the first to take a name that is taken, by
the index or by the file of an asset in front of it. -/
structure ClashesAfter (s : Settings) (front : List Asset) (a : Asset) (first : String) :
    Prop where
  /-- The index and the files of the assets in front have different names. -/
  fresh : ((front.map Asset.symbol ++ [s.indexName]).map (foldedName s.target)).Nodup
  /-- What has taken the name is told by its path, or as the index. -/
  taken : (foldedName s.target s.indexName = foldedName s.target a.symbol
      ∧ first = s.indexFileName ++ " (index)")
    ∨ ∃ c ∈ front, foldedName s.target c.symbol = foldedName s.target a.symbol ∧ first = c.path

/-- Names of files differ just if their stems do. -/
theorem nodup_foldedName_iff {target : Target} {stems : List String} :
    (stems.map (foldedName target)).Nodup ↔ (stems.map MediaType.asciiLower).Nodup := by
  have hcomp : stems.map (foldedName target)
      = (stems.map MediaType.asciiLower).map target.fileName := by
    rw [List.map_map]
    exact List.map_congr_left fun stem _ => asciiLower_fileName target stem
  rw [hcomp]
  exact List.nodup_map_iff fun _ _ => fileName_injective target

/-- What is reported is the first file that takes a name that is taken. -/
theorem clashesAfter_of_firstFileClash {s : Settings} {assets : List Asset} {e : BundleError}
    (h : firstFileClash s.target (indexTaken s) assets = some e) :
    ∃ front a rest first, assets = front ++ a :: rest ∧ ClashesAfter s front a first
      ∧ e = .collision (s.target.fileName a.symbol) first a.path := by
  obtain ⟨front, a, rest, first, rfl, hnone, hlookup, rfl⟩ := firstFileClash_eq_some h
  refine ⟨front, a, rest, first, rfl, ⟨?_, ?_⟩, rfl⟩
  · rw [nodup_foldedName_iff, List.map_append, List.map_map]
    exact nodup_stems hnone
  · obtain ⟨before, after, hentries, -⟩ := List.lookup_eq_some_iff.1 hlookup
    have hmem : (MediaType.asciiLower a.symbol, first)
        ∈ indexTaken s ++ front.map fun x => (MediaType.asciiLower x.symbol, x.path) := by
      rw [hentries]
      exact List.mem_append_right _ List.mem_cons_self
    rcases List.mem_append.1 hmem with hindex | hfront
    · obtain ⟨hkey, hfirst⟩ := Prod.mk.inj (List.mem_singleton.1 hindex)
      exact .inl ⟨foldedName_eq_iff.2 hkey.symm, hfirst⟩
    · obtain ⟨c, hc, hentry⟩ := List.mem_map.1 hfront
      obtain ⟨hkey, hfirst⟩ := Prod.mk.inj hentry
      exact .inr ⟨c, hc, foldedName_eq_iff.2 hkey, hfirst.symm⟩

/-- A name that is taken comes twice among the names of all files. -/
theorem ClashesAfter.not_nodup {s : Settings} {front rest : List Asset} {a : Asset} {first : String}
    (h : ClashesAfter s front a first) :
    ¬ (((front ++ a :: rest).map Asset.symbol ++ [s.indexName]).map (foldedName s.target)).Nodup := by
  intro hn
  simp only [List.map_append, List.append_assoc] at hn
  rw [List.nodup_append] at hn
  obtain ⟨-, hlater, hapart⟩ := hn
  rcases h.taken with ⟨hkey, -⟩ | ⟨c, hc, hkey, -⟩
  · refine (List.nodup_cons.1 hlater).1 ?_
    rw [← hkey]
    exact List.mem_append_right _ (List.mem_singleton_self _)
  · exact hapart _ (List.mem_map_of_mem (List.mem_map_of_mem hc)) _ List.mem_cons_self hkey

theorem firstFileClash_eq_none_iff {s : Settings} {assets : List Asset} :
    firstFileClash s.target (indexTaken s) assets = none
      ↔ ((assets.map Asset.symbol ++ [s.indexName]).map (foldedName s.target)).Nodup := by
  constructor
  · intro h
    rw [nodup_foldedName_iff, List.map_append, List.map_map]
    exact nodup_stems h
  · intro hn
    cases hclash : firstFileClash s.target (indexTaken s) assets with
    | none => rfl
    | some e =>
      obtain ⟨front, a, rest, first, rfl, hclashes, -⟩ := clashesAfter_of_firstFileClash hclash
      exact absurd hn hclashes.not_nodup

/-! ## §4. Plans. -/

section
variable (b : Bundle) (s : Settings)

/-- No identifier of a bundle is reserved. -/
def NamesUsable : Prop := ∀ a ∈ b.assets, ∀ ident ∈ a.idents, ¬ Reserved s.target ident

theorem planError?_eq_none_iff :
    planError? b s = none ↔ NamesUsable b s
      ∧ (s.mode = .split → firstFileClash s.target (indexTaken s) b.assets = none) := by
  unfold planError? NamesUsable
  rw [← firstReserved_eq_none_iff]
  cases hr : firstReserved s.target b.assets with
  | some e => simp
  | none =>
    cases hm : s.mode with
    | combined => simp
    | split => simp [indexTaken]

theorem stems_units (h : s.mode = .split) :
    (units b s).map SourceUnit.stem = b.assets.map Asset.symbol ++ [s.indexName] := by
  unfold units
  rw [h]
  simp [assetUnit, indexUnit]

/-- A bundle is planned just if no identifier is reserved and, with one file for
each asset, no two files have names that are equal when case is ignored.  What
is reported otherwise is the first reserved identifier; if there is none, it is
the first asset whose file takes a name that is taken. -/
theorem plan_exact :
    ((∃ us, plan b s = .ok us) ↔ NamesUsable b s
        ∧ (s.mode = .split → ((units b s).map fun u => foldedName s.target u.stem).Nodup))
      ∧ (∀ us, plan b s = .ok us → us = units b s)
      ∧ ∀ e, plan b s = .error e →
        (∃ front a rest ident, b.assets = front ++ a :: rest
          ∧ ReservedAfter s.target front a ident ∧ e = .reserved ident a.path s.target.label)
        ∨ NamesUsable b s ∧ s.mode = .split
          ∧ ∃ front a rest first, b.assets = front ++ a :: rest ∧ ClashesAfter s front a first
            ∧ e = .collision (s.target.fileName a.symbol) first a.path := by
  refine ⟨?_, fun us h => (accepted_of_plan h).1, fun e h => ?_⟩
  · simp only [plan_eq_ok_iff, exists_and_left, exists_eq', and_true]
    rw [planError?_eq_none_iff]
    refine and_congr_right fun _ => imp_congr_right fun hm => ?_
    have hnames : ((units b s).map fun u => foldedName s.target u.stem)
        = ((units b s).map SourceUnit.stem).map (foldedName s.target) := by
      rw [List.map_map]
      rfl
    rw [firstFileClash_eq_none_iff, hnames, stems_units b s hm]
  · rw [plan_eq_error_iff] at h
    unfold planError? at h
    split at h
    · next e' hr =>
      cases h
      exact .inl (reservedAfter_of_firstReserved hr)
    · next hr =>
      -- files are compared only after all identifiers have been looked at
      split at h
      · cases h
      · next hm =>
        exact .inr ⟨firstReserved_eq_none_iff.1 hr, hm, clashesAfter_of_firstFileClash h⟩

end

/-- The name of a path may be reserved where the symbol is not. -/
example : plan ⟨.ofString "web", [⟨"a-", []⟩], by decide, by decide⟩ Settings.default
    = .error (.reserved "a__path" "a-" "C++") := rfl

end AssetEmbed
