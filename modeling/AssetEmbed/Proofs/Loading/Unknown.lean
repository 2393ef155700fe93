/-
  AssetEmbed.Proofs.Loading.Unknown — keys of a configuration file that mean nothing.

  Beside the section that gives the settings, and in it beside the keys of
  fields, a document may hold any keys.  They change no setting, and a run is
  warned of each of them under the keys on the way to it.  What lies below such
  a key counts as a part of it.

  Main results:
    * `ofTable_eq`           — what a table says, in two parts.
    * `mem_ways`             — which keys are reported.
    * `nodup_ways`           — none is reported twice.
    * `Extends.overrides_eq` — more unknown keys change no setting.
    * `Extends.unknown_perm` — more unknown keys are reported besides the others.
-/
import AssetEmbed.Configuration.Document
import AssetEmbed.Proofs.Loading.Distinct
import Mathlib.Data.List.Perm.Basic

namespace AssetEmbed

/-- The keys on the ways from the top of a table to all keys in it and in the
tables below. -/
inductive Toml.Table.Reaches : Toml.Table → List String → Prop where
  | key {t : Toml.Table} {key : String} {v : Toml.Value} (h : (key, v) ∈ t) : Reaches t [key]
  | into {t inner : Toml.Table} {key : String} {kind : Toml.TableKind} {way : List String}
      (h : (key, .table kind inner) ∈ t) (hway : Reaches inner way) : Reaches t (key :: way)

namespace Configuration

open Document

/-! ## §1. Fields. -/

namespace Field

theorem named?_eq_some_iff {key : String} {field : Field} :
    named? key = some field ↔ field.key = key := by
  constructor
  · intro h
    simpa using List.find?_some h
  · rintro rfl
    cases field <;> rfl

theorem named?_eq_none_iff {key : String} :
    named? key = none ↔ ∀ field : Field, field.key ≠ key := by
  rw [← Option.not_isSome_iff_eq_none, Option.isSome_iff_exists]
  simp only [named?_eq_some_iff, not_exists, ne_eq]

/-- Values of two fields can be taken in in either order. -/
theorem set_comm {f g : Field} (h : f ≠ g) (o : Overrides) (v w : Toml.Value) :
    (f.set o v).bind (fun o => g.set o w) = (g.set o w).bind fun o => f.set o v := by
  -- both fields are read before either is put in
  have hswap : ∀ {α β : Type} (a : Option α) (b : Option β) (put : α → β → Overrides),
      (a.bind fun x => b.map (put x)) = b.bind fun y => a.map fun x => put x y := by
    intro α β a b put
    cases a <;> cases b <;> rfl
  cases f <;> cases g
  all_goals first
    | exact absurd rfl h
    | simp only [set, Option.bind_map, Function.comp_def]
      exact hswap _ _ _

end Field

/-! ## §2. What a table says. -/

/-- Takes the value under a key of the section in; one under a key of no field
changes nothing. -/
def take (o : Option Overrides) (entry : String × Toml.Value) : Option Overrides :=
  match Field.named? entry.1 with
  | some field => o.bind fun o => field.set o entry.2
  | none => o

/-- The keys of the section that are those of no field. -/
def strays (entries : Toml.Table) : List String :=
  (entries.map Prod.fst).filter fun key => (Field.named? key).isNone

/-- The entries of the value that stands for the section. -/
def entriesOf : Toml.Value → Toml.Table
  | .table _ entries => entries
  | _ => []

/-- All entries in the section. -/
def settingsOf (t : Toml.Table) : Toml.Table :=
  t.flatMap fun entry => if entry.1 = sectionKey then entriesOf entry.2 else []

/-- The unknown keys of a table, each with those on the way to it. -/
def ways (t : Toml.Table) : List (List String) :=
  t.flatMap fun entry =>
    if entry.1 = sectionKey then (strays (entriesOf entry.2)).map fun key => [sectionKey, key]
    else [[entry.1]]

section
variable {entry : String × Toml.Value} {rest : Toml.Table}

theorem settingsOf_cons_section (h : entry.1 = sectionKey) :
    settingsOf (entry :: rest) = entriesOf entry.2 ++ settingsOf rest := by
  simp [settingsOf, h]

theorem settingsOf_cons_of_ne (h : entry.1 ≠ sectionKey) :
    settingsOf (entry :: rest) = settingsOf rest := by
  simp [settingsOf, h]

theorem ways_cons_section (h : entry.1 = sectionKey) :
    ways (entry :: rest)
      = (strays (entriesOf entry.2)).map (fun key => [sectionKey, key]) ++ ways rest := by
  simp [ways, h]

theorem ways_cons_of_ne (h : entry.1 ≠ sectionKey) :
    ways (entry :: rest) = [entry.1] :: ways rest := by
  simp [ways, h]

end

theorem foldl_take_none (entries : Toml.Table) : entries.foldl take none = none := by
  induction entries with
  | nil => rfl
  | cons entry rest ih =>
    have hfirst : take none entry = none := by
      unfold take
      split <;> rfl
    rw [List.foldl_cons, hfirst, ih]

theorem addFields_eq (doc : Document) (entries : Toml.Table) :
    doc.addFields entries = (entries.foldl take (some doc.overrides)).map fun overrides =>
      { overrides, unknown := doc.unknown ++ (strays entries).map inSection } := by
  induction entries generalizing doc with
  | nil => simp [addFields, strays]
  | cons entry rest ih =>
    obtain ⟨key, v⟩ := entry
    rw [addFields, List.foldl_cons]
    cases hfield : Field.named? key with
    | none =>
      have hstrays : strays ((key, v) :: rest) = key :: strays rest := by
        simp [strays, hfield]
      have hadd : doc.addField key v
          = some { doc with unknown := doc.unknown ++ [inSection key] } := by
        simp [addField, hfield]
      have htake : take (some doc.overrides) (key, v) = some doc.overrides := by
        simp [take, hfield]
      rw [hadd, htake, Option.bind_some, ih, hstrays]
      simp
    | some field =>
      have hstrays : strays ((key, v) :: rest) = strays rest := by
        simp [strays, hfield]
      have hadd : doc.addField key v
          = (field.set doc.overrides v).map fun o => { doc with overrides := o } := by
        simp [addField, hfield]
      have htake : take (some doc.overrides) (key, v) = field.set doc.overrides v := by
        simp [take, hfield]
      rw [hadd, htake, hstrays]
      -- after a value that is refused nothing is taken in any more
      cases field.set doc.overrides v with
      | none => simp [foldl_take_none]
      | some o => simp [ih]

theorem addEntries_eq {t : Toml.Table}
    (h : ∀ entry ∈ t, entry.1 = sectionKey → ∃ kind entries, entry.2 = .table kind entries)
    (doc : Document) :
    doc.addEntries t = ((settingsOf t).foldl take (some doc.overrides)).map fun overrides =>
      { overrides, unknown := doc.unknown ++ (ways t).map (String.intercalate ".") } := by
  induction t generalizing doc with
  | nil => simp [addEntries, settingsOf, ways]
  | cons entry rest ih =>
    obtain ⟨key, v⟩ := entry
    rw [List.forall_mem_cons] at h
    rw [addEntries]
    split
    · next hkey =>
      obtain ⟨kind, entries, rfl⟩ := h.1 hkey
      have hways : (ways ((key, .table kind entries) :: rest)).map (String.intercalate ".")
          = (strays entries).map inSection ++ (ways rest).map (String.intercalate ".") := by
        rw [ways_cons_section hkey, List.map_append, List.map_map]
        rfl
      rw [settingsOf_cons_section hkey, hways, entriesOf, List.foldl_append, addSection,
        addFields_eq]
      cases entries.foldl take (some doc.overrides) with
      | none => simp [foldl_take_none]
      | some o => simp [ih h.2]
    · next hkey =>
      rw [ih h.2, settingsOf_cons_of_ne hkey, ways_cons_of_ne hkey]
      simp

/-! ## §3. Which keys are unknown. -/

/-- A key that means nothing, with those on the way to it: at the top any key
but that of the section, and in the section any key that is of no field. -/
inductive Unknown : List String → Prop where
  | top {key : String} (h : key ≠ sectionKey) : Unknown [key]
  | inside {key : String} (h : ∀ field : Field, field.key ≠ key) : Unknown [sectionKey, key]

/-- The entries of the section in a table; a section that is not there has none. -/
inductive Section (t : Toml.Table) : Toml.Table → Prop where
  | absent (h : sectionKey ∉ t.map Prod.fst) : Section t []
  | present {kind : Toml.TableKind} {entries : Toml.Table}
      (h : (sectionKey, .table kind entries) ∈ t) : Section t entries

section
variable {t entries : Toml.Table}

theorem mem_strays {key : String} :
    key ∈ strays entries ↔ key ∈ entries.map Prod.fst ∧ ∀ field : Field, field.key ≠ key := by
  rw [strays, List.mem_filter, Option.isNone_iff_eq_none, Field.named?_eq_none_iff]

/-- The section is the only value under its key. -/
theorem Section.eq_of_mem (hkeys : (t.map Prod.fst).Nodup) (h : Section t entries)
    {entry : String × Toml.Value} (hentry : entry ∈ t) (hkey : entry.1 = sectionKey) :
    ∃ kind, entry.2 = .table kind entries := by
  cases h with
  | absent hnone => exact absurd (hkey ▸ List.mem_map_of_mem hentry) hnone
  | @present kind _ hmem =>
    have heq := List.inj_on_of_nodup_map hkeys hentry hmem hkey
    exact ⟨kind, congrArg Prod.snd heq⟩

theorem settingsOf_eq_nil (h : sectionKey ∉ t.map Prod.fst) : settingsOf t = [] := by
  refine List.flatMap_eq_nil_iff.2 fun entry hentry => if_neg fun hkey => h ?_
  exact hkey ▸ List.mem_map_of_mem hentry

theorem settingsOf_eq (hkeys : (t.map Prod.fst).Nodup) (h : Section t entries) :
    settingsOf t = entries := by
  cases h with
  | absent hnone => exact settingsOf_eq_nil hnone
  | @present kind _ hmem =>
    obtain ⟨front, back, rfl⟩ := List.append_of_mem hmem
    rw [List.map_append, List.map_cons, List.nodup_middle, List.nodup_cons, List.mem_append,
      not_or] at hkeys
    -- neither in front of the section nor behind it its key comes again
    have hsplit : settingsOf (front ++ (sectionKey, .table kind entries) :: back)
        = settingsOf front ++ (entries ++ settingsOf back) := by
      simp [settingsOf, entriesOf]
    rw [hsplit, settingsOf_eq_nil hkeys.1.1, settingsOf_eq_nil hkeys.1.2, List.append_nil]
    rfl

/-- What a table says: settings by what is in the section, and its unknown keys. -/
theorem ofTable_eq (hkeys : (t.map Prod.fst).Nodup) (h : Section t entries) :
    ofTable t = (entries.foldl take (some {})).map fun overrides =>
      { overrides, unknown := (ways t).map (String.intercalate ".") } := by
  have htables : ∀ entry ∈ t, entry.1 = sectionKey → ∃ kind es, entry.2 = .table kind es := by
    intro entry hentry hkey
    obtain ⟨kind, htable⟩ := h.eq_of_mem hkeys hentry hkey
    exact ⟨kind, entries, htable⟩
  rw [ofTable, addEntries_eq htables, settingsOf_eq hkeys h]
  simp

/-- The unknown keys are those among all keys of the document. -/
theorem mem_ways (hkeys : (t.map Prod.fst).Nodup) (h : Section t entries) {way : List String} :
    way ∈ ways t ↔ t.Reaches way ∧ Unknown way := by
  rw [ways, List.mem_flatMap]
  constructor
  · rintro ⟨entry, hentry, hway⟩
    split at hway
    · next hkey =>
      obtain ⟨kind, htable⟩ := h.eq_of_mem hkeys hentry hkey
      rw [htable] at hway
      obtain ⟨key, hstray, rfl⟩ := List.mem_map.1 hway
      obtain ⟨hmem, hfield⟩ := mem_strays.1 hstray
      obtain ⟨inner, hinner, rfl⟩ := List.mem_map.1 hmem
      have hsection : (sectionKey, .table kind entries) ∈ t := by
        rw [← hkey, ← htable]
        exact hentry
      exact ⟨.into hsection (.key hinner), .inside hfield⟩
    · next hkey =>
      rw [List.mem_singleton.1 hway]
      exact ⟨.key hentry, .top hkey⟩
  · rintro ⟨hreaches, hunknown⟩
    cases hunknown with
    | @top key hkey =>
      cases hreaches with
      | key hentry => exact ⟨_, hentry, by rw [if_neg hkey]; exact List.mem_singleton_self _⟩
      | into _ hnothing => cases hnothing
    | @inside key hfield =>
      cases hreaches with
      | @into _ inner _ kind _ hentry hinner =>
        refine ⟨_, hentry, ?_⟩
        rw [if_pos rfl]
        cases hinner with
        | key hmem =>
          exact List.mem_map_of_mem (mem_strays.2 ⟨List.mem_map_of_mem hmem, hfield⟩)
        | into _ hnothing => cases hnothing

/-- No unknown key is reported twice. -/
theorem nodup_ways (h : t.Distinct) : (ways t).Nodup := by
  refine List.nodup_flatMap.2 ⟨fun entry hentry => ?_, ?_⟩
  · split
    · have hdistinct := h.values entry hentry
      have hstrays : (strays (entriesOf entry.2)).Nodup := by
        unfold entriesOf
        split
        · next kind entries htable =>
          rw [htable, Toml.Table.distinct_table_iff] at hdistinct
          exact hdistinct.keys.filter _
        · exact List.nodup_nil
      exact hstrays.map fun a b hab => by simpa using hab
    · exact List.nodup_singleton _
  · -- the first key of a way says which entry it comes from
    have hhead : ∀ (entry : String × Toml.Value) (way : List String),
        way ∈ (if entry.1 = sectionKey then
          (strays (entriesOf entry.2)).map fun key => [sectionKey, key] else [[entry.1]]) →
        way.head? = some entry.1 := by
      intro entry way hway
      split at hway
      · next hkey =>
        obtain ⟨key, -, rfl⟩ := List.mem_map.1 hway
        rw [hkey]
        rfl
      · rw [List.mem_singleton.1 hway]
        rfl
    refine (List.pairwise_map.1 h.keys).imp fun hne way hway hway' => hne ?_
    exact Option.some.inj ((hhead _ way hway).symm.trans (hhead _ way hway'))

end

/-! ## §4. More unknown keys. -/

/-- Whether `large` is `small` with more keys that mean nothing, `top` at the top
and `inside` in the section.  The order of the keys is free. -/
structure Extends (small large top inside : Toml.Table) : Prop where
  beside : (Keyed.erase sectionKey large).Perm (Keyed.erase sectionKey small ++ top)
  within : ∃ entries entries', Section small entries ∧ Section large entries'
    ∧ entries'.Perm (entries ++ inside)
  unknown : ∀ entry ∈ inside, ∀ field : Field, field.key ≠ entry.1

section
variable {t small large top inside entries entries' : Toml.Table}

theorem take_comm {a b : String × Toml.Value} (h : a.1 ≠ b.1) (o : Option Overrides) :
    take (take o a) b = take (take o b) a := by
  cases ha : Field.named? a.1 with
  | none => simp [take, ha]
  | some f =>
    cases hb : Field.named? b.1 with
    | none => simp [take, ha, hb]
    | some g =>
      cases o with
      | none => simp [take, ha, hb]
      | some o =>
        have hne : f ≠ g := by
          rintro rfl
          exact h ((Field.named?_eq_some_iff.1 ha).symm.trans (Field.named?_eq_some_iff.1 hb))
        simpa [take, ha, hb] using Field.set_comm hne o a.2 b.2

/-- The order of keys that all differ makes no difference to the settings. -/
theorem foldl_take_perm (hkeys : (entries'.map Prod.fst).Nodup) (h : entries'.Perm entries)
    (o : Option Overrides) : entries'.foldl take o = entries.foldl take o := by
  refine h.foldl_eq' (fun a ha b hb o => ?_) o
  by_cases hkey : a.1 = b.1
  · rw [List.inj_on_of_nodup_map hkeys ha hb hkey]
  · exact take_comm hkey o

theorem foldl_take_unknown (h : ∀ entry ∈ inside, ∀ field : Field, field.key ≠ entry.1)
    (o : Option Overrides) : inside.foldl take o = o := by
  induction inside generalizing o with
  | nil => rfl
  | cons entry rest ih =>
    rw [List.forall_mem_cons] at h
    have hfirst : take o entry = o := by
      simp [take, Field.named?_eq_none_iff.2 h.1]
    rw [List.foldl_cons, hfirst, ih h.2]

theorem strays_append (entries inside : Toml.Table) :
    strays (entries ++ inside) = strays entries ++ strays inside := by
  simp [strays]

/-- The unknown keys at the top, and then those of the section. -/
theorem ways_perm (t : Toml.Table) :
    (ways t).Perm ((Keyed.erase sectionKey t).map (fun entry => [entry.1])
      ++ (strays (settingsOf t)).map fun key => [sectionKey, key]) := by
  induction t with
  | nil => exact .refl _
  | cons entry rest ih =>
    by_cases hkey : entry.1 = sectionKey
    · have herase : Keyed.erase sectionKey (entry :: rest) = Keyed.erase sectionKey rest := by
        simp [Keyed.erase, hkey]
      rw [ways_cons_section hkey, herase, settingsOf_cons_section hkey, strays_append,
        List.map_append]
      -- the keys in the section go behind those at the top that come after it
      exact (ih.append_left _).trans (List.perm_append_comm_assoc _ _ _)
    · have herase : Keyed.erase sectionKey (entry :: rest)
          = entry :: Keyed.erase sectionKey rest := by
        simp [Keyed.erase, hkey]
      rw [ways_cons_of_ne hkey, herase, settingsOf_cons_of_ne hkey]
      exact ih.cons _

theorem strays_of_unknown (h : ∀ entry ∈ inside, ∀ field : Field, field.key ≠ entry.1) :
    strays inside = inside.map Prod.fst := by
  refine List.filter_eq_self.2 fun key hkey => ?_
  obtain ⟨entry, hentry, rfl⟩ := List.mem_map.1 hkey
  rw [Field.named?_eq_none_iff.2 (h entry hentry)]
  rfl

/-- More unknown keys come besides the others. -/
theorem Extends.ways_perm (h : Extends small large top inside) (hsmall : small.Distinct)
    (hlarge : large.Distinct) :
    (ways large).Perm (ways small
      ++ (top.map (fun entry => [entry.1]) ++ inside.map fun entry => [sectionKey, entry.1])) := by
  obtain ⟨entries, entries', hentries, hentries', hperm⟩ := h.within
  have hbefore := Configuration.ways_perm small
  rw [settingsOf_eq hsmall.keys hentries] at hbefore
  have hafter := Configuration.ways_perm large
  rw [settingsOf_eq hlarge.keys hentries'] at hafter
  have hbeside := h.beside.map fun entry => [entry.1]
  rw [List.map_append] at hbeside
  have hstrays : (strays entries').Perm (strays entries ++ inside.map Prod.fst) := by
    rw [← strays_of_unknown h.unknown, ← strays_append]
    exact (hperm.map Prod.fst).filter _
  have hwithin := hstrays.map fun key => [sectionKey, key]
  rw [List.map_append, List.map_map] at hwithin
  -- the new keys at the top go behind the old ones in the section
  refine (hafter.trans (hbeside.append hwithin)).trans ?_
  refine List.Perm.trans ?_ (hbefore.symm.append_right _)
  rw [List.append_assoc, List.append_assoc]
  exact (List.perm_append_comm_assoc _ _ _).append_left _

/-- More unknown keys change no setting. -/
theorem Extends.overrides_eq (h : Extends small large top inside) (hsmall : small.Distinct)
    (hlarge : large.Distinct) :
    (ofTable large).map (·.overrides) = (ofTable small).map (·.overrides) := by
  obtain ⟨entries, entries', hentries, hentries', hperm⟩ := h.within
  have hkeys' : (entries'.map Prod.fst).Nodup := by
    cases hentries' with
    | absent => exact List.nodup_nil
    | present hmem => exact (Toml.Table.distinct_table_iff.1 (hlarge.values _ hmem)).keys
  rw [ofTable_eq hsmall.keys hentries, ofTable_eq hlarge.keys hentries',
    foldl_take_perm hkeys' hperm, List.foldl_append, foldl_take_unknown h.unknown,
    Option.map_map, Option.map_map]
  rfl

end

/-! ## §5. What is reported. -/

/-- Whether a run is warned of the unknown keys in a table, and of each of them
once.  A key is written behind those on the way to it. -/
def Reports (t : Toml.Table) (unknown : List String) : Prop :=
  ∃ ways : List (List String), ways.Nodup ∧ (∀ way, way ∈ ways ↔ t.Reaches way ∧ Unknown way)
    ∧ unknown = ways.map (String.intercalate ".")

section
variable {t small large top inside entries : Toml.Table} {d d' : Document}

theorem unknown_eq (ht : t.Distinct) (h : Section t entries) (hd : ofTable t = some d) :
    d.unknown = (ways t).map (String.intercalate ".") := by
  rw [ofTable_eq ht.keys h, Option.map_eq_some_iff] at hd
  obtain ⟨overrides, -, rfl⟩ := hd
  rfl

theorem reports_unknown (ht : t.Distinct) (h : Section t entries) (hd : ofTable t = some d) :
    Reports t d.unknown :=
  ⟨ways t, nodup_ways ht, fun _ => mem_ways ht.keys h, unknown_eq ht h hd⟩

/-- Each unknown key that comes to a document comes to what is reported. -/
theorem Extends.unknown_perm (h : Extends small large top inside) (hsmall : small.Distinct)
    (hlarge : large.Distinct) (hd : ofTable small = some d) (hd' : ofTable large = some d') :
    d'.unknown.Perm
      (d.unknown ++ (top.map Prod.fst ++ inside.map fun entry => inSection entry.1)) := by
  obtain ⟨entries, entries', hentries, hentries', -⟩ := h.within
  rw [unknown_eq hsmall hentries hd, unknown_eq hlarge hentries' hd']
  have hways := (h.ways_perm hsmall hlarge).map (String.intercalate ".")
  rw [List.map_append, List.map_append, List.map_map, List.map_map] at hways
  exact hways

/-- There is nothing to report just if no key is unknown. -/
theorem Reports.eq_nil_iff {unknown : List String} (h : Reports t unknown) :
    unknown = [] ↔ ∀ way, t.Reaches way → ¬ Unknown way := by
  obtain ⟨ways, -, hmem, rfl⟩ := h
  rw [List.map_eq_nil_iff, List.eq_nil_iff_forall_not_mem]
  refine forall_congr' fun way => ?_
  rw [hmem, not_and]

end

end Configuration

end AssetEmbed
