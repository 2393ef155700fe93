/-
  AssetEmbed.Proofs.Files.Landing — where new directories come to lie.

  Making the directories of a path puts empty directories where nothing was,
  and changes nothing else.  So one can tell beforehand where they will lie: by
  walking the path as if there were a directory wherever nothing is.

  Main results:
    * `grows_update`            — what a change in one directory changes.
    * `grown_makeDirs`          — making directories makes nothing but directories.
    * `exists_landing`          — if they can be made, the path leads to one.
    * `destination?_of_landing` — they lie where the path leads beforehand.
    * `Spells.destination_eq`   — a path that spells a place leads there.
-/
import AssetEmbed.FileTree.Change
import AssetEmbed.Proofs.Files.Walk
import Mathlib.Data.List.TakeWhile

namespace AssetEmbed

/-! ## §1. Separators at the end. -/

namespace Path

variable (p : Path)

/-- Only separators are taken off the end of a path, and never all that it has. -/
theorem withoutTrailingSlashes_spec :
    ∃ slashes, (∀ b ∈ slashes, b = slash)
      ∧ p.bytes = p.withoutTrailingSlashes.bytes ++ slashes
      ∧ (slashes ≠ [] → p.withoutTrailingSlashes.bytes ≠ []) := by
  unfold withoutTrailingSlashes
  split
  · exact ⟨[], by simp, by simp, by simp⟩
  · next kept hne =>
    refine ⟨(p.bytes.reverse.takeWhile (· == slash)).reverse, fun b hb => ?_, ?_, fun _ => ?_⟩
    · have htaken := List.mem_takeWhile_imp (List.mem_reverse.1 hb)
      exact beq_iff_eq.1 htaken
    · rw [← List.reverse_append, List.takeWhile_append_dropWhile, List.reverse_reverse]
    · exact List.reverse_ne_nil_iff.2 hne

theorem steps_withoutTrailingSlashes :
    ∃ tail, (∀ step ∈ tail, step = .blank) ∧ p.steps = p.withoutTrailingSlashes.steps ++ tail := by
  obtain ⟨slashes, hslashes, hbytes, -⟩ := p.withoutTrailingSlashes_spec
  refine ⟨slashes.map fun _ => .blank, by simp, ?_⟩
  unfold steps
  rw [hbytes, splitSlash_append_slashes hslashes, List.map_append, List.map_map]
  rfl

theorem isAbsolute_withoutTrailingSlashes :
    p.withoutTrailingSlashes.isAbsolute = p.isAbsolute := by
  obtain ⟨slashes, -, hbytes, hne⟩ := p.withoutTrailingSlashes_spec
  unfold isAbsolute
  rw [hbytes]
  cases slashes with
  | nil => rw [List.append_nil]
  | cons b rest =>
    obtain ⟨first, others, hfirst⟩ := List.exists_cons_of_ne_nil (hne (List.cons_ne_nil _ _))
    rw [hfirst]
    rfl

end Path

/-! ## §2. New directories. -/

/-- The entry at a place, seen from an entry. -/
def Entry.entryAt (place : Location) : Entry → Option Entry
  | .folder inner => inner.entryAt place
  | entry => if place = [] then some entry else none

/-- What there may be at a place before and after directories are made. -/
inductive Grows : Option Entry → Option Entry → Prop
  | same (entry : Option Entry) : Grows entry entry
  | made (d : Directory) : Grows none (some (.folder d))
  | inside (d d' : Directory) : Grows (some (.folder d)) (some (.folder d'))

theorem Grows.trans {before between after : Option Entry} (h : Grows before between)
    (h' : Grows between after) : Grows before after := by
  cases h with
  | same => exact h'
  | made d =>
    cases h' with
    | same => exact .made d
    | inside _ d' => exact .made d'
  | inside d d' =>
    cases h' with
    | same => exact .inside d d'
    | inside _ d'' => exact .inside d d''

theorem Grows.of_folder {before : Option Entry} {d : Directory}
    (h : Grows before (some (.folder d))) :
    before = none ∨ ∃ d', before = some (.folder d') := by
  cases h with
  | same => exact .inr ⟨d, rfl⟩
  | made _ => exact .inl rfl
  | inside d' _ => exact .inr ⟨d', rfl⟩

theorem Grows.of_link {before : Option Entry} {target : Path}
    (h : Grows before (some (.link target))) : before = some (.link target) := by
  cases h
  rfl

theorem Grows.folder {after : Option Entry} {d : Directory}
    (h : Grows (some (.folder d)) after) : ∃ d', after = some (.folder d') := by
  cases h with
  | same => exact ⟨d, rfl⟩
  | inside _ d' => exact ⟨d', rfl⟩

theorem Grows.link {after : Option Entry} {target : Path}
    (h : Grows (some (.link target)) after) : after = some (.link target) := by
  cases h
  rfl

namespace Directory

theorem entryAt_cons (d : Directory) (name : EntryName) (names : Location) :
    d.entryAt (name :: names) = (d.find? name).bind (Entry.entryAt names) := by
  conv_lhs => unfold entryAt
  cases d.find? name with
  | none => rfl
  | some entry => cases entry <;> cases names <;> rfl

theorem entryAt_singleton (d : Directory) (name : EntryName) : d.entryAt [name] = d.find? name := by
  rw [entryAt_cons]
  cases d.find? name with
  | none => rfl
  | some entry => cases entry <;> rfl

theorem find?_of_entryAt {d inner : Directory} {first : EntryName} {names : Location}
    (h : d.entryAt (first :: names) = some (.folder inner)) :
    ∃ next, d.find? first = some (.folder next) ∧ next.entryAt names = some (.folder inner) := by
  rw [entryAt_cons] at h
  cases hf : d.find? first with
  | none => simp [hf] at h
  | some entry =>
    rw [hf] at h
    cases entry with
    | folder next => exact ⟨next, rfl, h⟩
    | file content => cases names <;> cases h
    | link target => cases names <;> cases h

theorem entryAt_append {d inner : Directory} {place : Location}
    (h : d.entryAt place = some (.folder inner)) (rest : Location) :
    d.entryAt (place ++ rest) = inner.entryAt rest := by
  induction place generalizing d with
  | nil =>
    cases h
    rfl
  | cons first names ih =>
    obtain ⟨next, hf, hnext⟩ := find?_of_entryAt h
    rw [List.cons_append, entryAt_cons, hf]
    exact ih hnext

/-- Only a directory has something below it. -/
theorem folder_of_entryAt {d : Directory} {way rest : Location} (hne : rest ≠ []) {entry : Entry}
    (h : d.entryAt (way ++ rest) = some entry) : ∃ inner, d.entryAt way = some (.folder inner) := by
  induction way generalizing d with
  | nil => exact ⟨d, rfl⟩
  | cons first names ih =>
    rw [List.cons_append, entryAt_cons] at h
    rw [entryAt_cons]
    obtain ⟨next, more, hmore⟩ : ∃ next more, names ++ rest = next :: more :=
      List.exists_cons_of_ne_nil (by simp [hne])
    cases hf : d.find? first with
    | none => simp [hf] at h
    | some found =>
      rw [hf] at h
      cases found with
      | folder inner => exact ih h
      | file | link =>
        rw [hmore] at h
        cases h

/-- From its place on, a change in a directory is what is seen. -/
theorem entryAt_update_append {change : Directory → Directory} {d inner : Directory}
    {place : Location} (h : d.entryAt place = some (.folder inner)) (rest : Location) :
    (d.update change place).entryAt (place ++ rest) = (change inner).entryAt rest := by
  induction place generalizing d with
  | nil =>
    cases h
    rfl
  | cons first names ih =>
    obtain ⟨next, hf, hnext⟩ := find?_of_entryAt h
    simp only [update, hf]
    rw [List.cons_append, entryAt_cons, find?_put, if_pos rfl]
    exact ih hnext

/-- A change in a directory changes nothing around it. -/
theorem grows_update {change : Directory → Directory} {d : Directory} {place way : Location}
    (h : ∀ inner rest, d.entryAt place = some (.folder inner) → way = place ++ rest →
      Grows (inner.entryAt rest) ((change inner).entryAt rest)) :
    Grows (d.entryAt way) ((d.update change place).entryAt way) := by
  induction place generalizing d way with
  | nil => exact h d way rfl rfl
  | cons first names ih =>
    simp only [update]
    split
    · next next hf =>
      cases way with
      | nil => exact .inside _ _
      | cons other more =>
        rw [entryAt_cons, entryAt_cons, find?_put]
        -- only below the first name there is something else than before
        by_cases hn : other = first
        · rw [if_pos hn, hn, hf]
          refine ih fun inner rest hinner hmore => h inner rest ?_ ?_
          · rw [entryAt_cons, hf]
            exact hinner
          · rw [hn, hmore, List.cons_append]
        · rw [if_neg hn]
          exact .same _
    · exact .same _

/-- Under a name that is free a directory can be put. -/
theorem grows_putFolder {d : Directory} {name : EntryName} (h : d.find? name = none)
    (way : Location) : Grows (d.entryAt way) ((d.put name (.folder .empty)).entryAt way) := by
  cases way with
  | nil => exact .inside _ _
  | cons first rest =>
    rw [entryAt_cons, entryAt_cons, find?_put]
    by_cases hn : first = name
    · rw [if_pos hn, hn, h]
      cases rest with
      | nil => exact .made _
      | cons _ _ => exact .same _
    · rw [if_neg hn]
      exact .same _

/-- Where there is no directory, a file can be put; only its own place is then
another. -/
theorem grows_putFile {d : Directory} {name : EntryName} {content : List UInt8}
    (h : ∀ inner, d.find? name ≠ some (.folder inner)) {way : Location} (hw : way ≠ [name]) :
    Grows (d.entryAt way) ((d.put name (.file content)).entryAt way) := by
  cases way with
  | nil => exact .inside _ _
  | cons first rest =>
    rw [entryAt_cons, entryAt_cons, find?_put]
    by_cases hn : first = name
    · -- nothing lies below what is not a directory
      subst hn
      rw [if_pos rfl]
      cases rest with
      | nil => exact absurd rfl hw
      | cons _ _ =>
        cases hf : d.find? first with
        | none => exact .same _
        | some entry =>
          cases entry with
          | folder inner => exact absurd hf (h inner)
          | file _ => exact .same _
          | link _ => exact .same _
    · rw [if_neg hn]
      exact .same _

/-- Whether there is no link in a directory and in those below it. -/
def linkless : Directory → Bool
  | .empty => true
  | .file _ _ rest => rest.linkless
  | .link .. => false
  | .folder _ inner rest => inner.linkless && rest.linkless

theorem find?_of_linkless {d : Directory} (h : d.linkless = true) {name : EntryName}
    {entry : Entry} (hf : d.find? name = some entry) :
    (∀ target, entry ≠ .link target) ∧ ∀ inner, entry = .folder inner → inner.linkless = true := by
  induction d with
  | empty => cases hf
  | file n content rest ih =>
    unfold find? at hf
    split at hf
    · cases hf
      exact ⟨by simp, by simp⟩
    · exact ih h hf
  | link n target rest _ => cases h
  | folder n inner rest _ ih =>
    rw [linkless, Bool.and_eq_true] at h
    unfold find? at hf
    split at hf
    · cases hf
      exact ⟨by simp, fun _ heq => Entry.folder.inj heq ▸ h.1⟩
    · exact ih h.2 hf

/-- Where there is no link, no place leads to one. -/
theorem entryAt_ne_link {d : Directory} (h : d.linkless = true) (place : Location)
    (target : Path) : d.entryAt place ≠ some (.link target) := by
  induction place generalizing d with
  | nil => simp [entryAt]
  | cons first rest ih =>
    intro hl
    rw [entryAt_cons] at hl
    obtain ⟨entry, hf, hentry⟩ := Option.bind_eq_some_iff.1 hl
    obtain ⟨hlink, hfolder⟩ := find?_of_linkless h hf
    cases entry with
    | folder inner => exact ih (hfolder inner rfl) hentry
    | file content => cases rest <;> cases hentry
    | link other => exact hlink other rfl

end Directory

/-! ## §3. Making directories. -/

namespace FileTree

variable {t made : FileTree} {current : Location} {p : Path} {place landing : Location}

/-- Whether a tree comes from another one by making directories. -/
def Grown (made t : FileTree) : Prop := ∀ way, Grows (t.entryAt way) (made.entryAt way)

theorem Grown.refl (t : FileTree) : Grown t t := fun _ => .same _

theorem Grown.trans {a b c : FileTree} (h : Grown a b) (h' : Grown b c) : Grown a c :=
  fun way => (h' way).trans (h way)

theorem grown_putFolder {name : EntryName} (h : t.entryAt (place ++ [name]) = none) :
    Grown (t.putFolder place name) t := by
  refine fun way => Directory.grows_update fun inner rest hinner _ => ?_
  refine Directory.grows_putFolder ?_ rest
  rw [← Directory.entryAt_singleton, ← Directory.entryAt_append hinner]
  exact h

theorem grown_makeDir (h : t.makeDir current p = .ok made) : Grown made t := by
  unfold makeDir at h
  split at h
  · cases h
  · next parent name _ hr =>
    cases h
    unfold resolve at hr
    split at hr
    · cases hr
    · exact grown_putFolder (walk_holds stable_true trivial hr).2
  · cases h
  · cases h

theorem grown_ensureDir (h : t.ensureDir current p = .ok made) : Grown made t := by
  unfold ensureDir at h
  split at h
  · next made' hm =>
    cases h
    exact grown_makeDir hm
  · split at h
    · cases h
      exact .refl t
    · cases h

theorem grown_makeDirsUpTo (current : Location) (fuel : Nat) (p : Path) (t : FileTree) :
    Grown (makeDirsUpTo current fuel p t).2 t := by
  induction fuel generalizing p t with
  | zero => exact .refl t
  | succ fuel ih =>
    unfold makeDirsUpTo
    split
    · exact .refl t
    · split
      -- the directories above come first; if they fail, what was made stays
      · next up _ _ =>
        have hup := ih up t
        split
        · next e made hm =>
          rw [hm] at hup
          exact hup
        · next made hm =>
          rw [hm] at hup
          split
          · next _ hlast => exact (grown_ensureDir hlast).trans hup
          · exact hup
      · split
        · next _ hlast => exact grown_ensureDir hlast
        · exact .refl t

/-- Making directories makes nothing but directories. -/
theorem grown_makeDirs (t : FileTree) (current : Location) (p : Path) :
    Grown (t.makeDirs current p).2 t :=
  grown_makeDirsUpTo current _ p t

/-! ## §4. Where directories are made. -/

/-- The place of the directory at a path after the directories of the path have
been made; `none` if they cannot be. -/
def landing? (t : FileTree) (current : Location) (p : Path) : Option Location :=
  match t.makeDirs current p with
  | (.error _, _) => none
  | (.ok (), made) =>
    match made.resolve .target current p with
    | .ok (.folder place) => some place
    | _ => none

/-- Making directories keeps those that are there, and all links. -/
theorem Grown.keeps (h : Grown made t) : Keeps t.entryAt made.entryAt where
  folder {way _} hd := Grows.folder (hd ▸ h way)
  link {way _} hl := Grows.link (hl ▸ h way)

/-- What an absolute path leads to is there, below directories. -/
theorem resolve_holds {purpose : Purpose} {r : Place} (hp : p.isAbsolute = true)
    (h : t.resolve purpose current p = .ok r) : r.Holds t.entryAt (Solid t.entryAt) := by
  have hstart : p.start current = [] := if_pos hp
  unfold resolve at h
  split at h
  · cases h
  · rw [hstart] at h
    exact walk_holds stable_solid .nil h

theorem exists_folder_of_solid (h : Solid t.entryAt place) :
    ∃ d, t.entryAt place = some (.folder d) := by
  cases place with
  | nil => exact ⟨t.top, rfl⟩
  | cons name rest => exact h _ List.prefix_rfl (List.cons_ne_nil _ _)

theorem entryAt_putFolder {name : EntryName} (h : Solid t.entryAt place) :
    (t.putFolder place name).entryAt (place ++ [name]) = some (.folder .empty) := by
  obtain ⟨d, hd⟩ := exists_folder_of_solid h
  refine (Directory.entryAt_update_append hd [name]).trans ?_
  rw [Directory.entryAt_singleton, Directory.find?_put, if_pos rfl]

/-- Where a directory has been made, the path leads to it. -/
theorem resolve_makeDir (hp : p.isAbsolute = true) (h : t.makeDir current p = .ok made) :
    ∃ found, made.resolve .target current p = .ok (.folder found) := by
  have hg := grown_makeDir h
  obtain ⟨tail, htail, hsteps⟩ := p.steps_withoutTrailingSlashes
  have habsolute := (p.isAbsolute_withoutTrailingSlashes).trans hp
  unfold makeDir at h
  split at h
  · cases h
  · next parent name hfault hr =>
    cases h
    have hsolid := (resolve_holds habsolute hr).1
    refine ⟨parent ++ [name], ?_⟩
    unfold resolve at hr ⊢
    split at hr
    · cases hr
    · rw [hfault, hsteps, Path.start, if_pos hp]
      rw [Path.start, if_pos habsolute] at hr
      exact walk_made hg.keeps (entryAt_putFolder hsolid) htail hr
  · cases h
  · cases h

theorem resolve_ensureDir (hp : p.isAbsolute = true) (h : t.ensureDir current p = .ok made) :
    ∃ found, made.resolve .target current p = .ok (.folder found) := by
  unfold ensureDir at h
  split at h
  · next made' hm =>
    cases h
    exact resolve_makeDir hp hm
  · split at h
    · next hd =>
      cases h
      -- a directory was there before
      unfold isDirectory at hd
      split at hd
      · next found hr => exact ⟨found, hr⟩
      · cases hd
    · cases h

/-- The last of the directories of a path is that of the path itself. -/
theorem ensureDir_of_makeDirs (hp : p.bytes ≠ []) (h : t.makeDirs current p = (.ok (), made)) :
    ∃ between : FileTree, between.ensureDir current p = .ok made := by
  unfold makeDirs makeDirsUpTo at h
  rw [if_neg hp] at h
  split at h
  · split at h
    · cases h
    · next between _ =>
      split at h
      · next last hlast =>
        cases h
        exact ⟨between, hlast⟩
      · cases h
  · split at h
    · next last hlast =>
      cases h
      exact ⟨t, hlast⟩
    · cases h

/-- Once its directories have been made, an absolute path leads to one. -/
theorem exists_landing (hp : p.isAbsolute = true) (h : t.makeDirs current p = (.ok (), made)) :
    ∃ landing, t.landing? current p = some landing
      ∧ made.resolve .target current p = .ok (.folder landing) := by
  have hne : p.bytes ≠ [] := fun hnil => by simp [Path.isAbsolute, hnil] at hp
  obtain ⟨between, hbetween⟩ := ensureDir_of_makeDirs hne h
  obtain ⟨landing, hr⟩ := resolve_ensureDir hp hbetween
  refine ⟨landing, ?_, hr⟩
  unfold landing?
  rw [h]
  dsimp only
  rw [hr]

/-- The entry at a place, as if there were a directory wherever nothing is. -/
def filledEntryAt (t : FileTree) (place : Location) : Option Entry :=
  (t.entryAt place).or (some (.folder .empty))

/-- The place that a path leads to once its missing directories are made. -/
def destination? (t : FileTree) (current : Location) (p : Path) : Option Location :=
  match walk t.filledEntryAt .target linkLimit (p.start current) p.steps with
  | .ok (.folder place) => some place
  | _ => none

/-- What is a directory later is one as if it had been made before. -/
theorem keeps_filled (hg : Grown made t) : Keeps made.entryAt t.filledEntryAt where
  folder {way d} hd := by
    have hgrows := hg way
    rw [hd] at hgrows
    unfold filledEntryAt
    rcases hgrows.of_folder with hold | ⟨d', hold⟩ <;> rw [hold]
    · exact ⟨_, rfl⟩
    · exact ⟨d', rfl⟩
  link {way target} hl := by
    have hgrows := hg way
    rw [hl] at hgrows
    unfold filledEntryAt
    rw [hgrows.of_link]
    rfl

/-- New directories lie where their path leads beforehand. -/
theorem destination?_of_landing (h : t.landing? current p = some landing) :
    t.destination? current p = some landing := by
  have hg := grown_makeDirs t current p
  unfold landing? at h
  split at h
  · cases h
  · next made hm =>
    rw [hm] at hg
    split at h
    · next found hr =>
      cases h
      unfold resolve at hr
      split at hr
      · cases hr
      · unfold destination?
        rw [walk_keeps (keeps_filled hg) hr]
    · cases h

/-- A path that spells a place leads there. -/
theorem Spells.destination_eq (h : t.Spells p place)
    (hd : t.destination? current p = some landing) : landing = place := by
  -- filling in directories makes no links
  have hunlinked : ∀ way, way <+: place → ∀ target, t.filledEntryAt way ≠ some (.link target) := by
    intro way hw target hl
    unfold filledEntryAt at hl
    cases he : t.entryAt way with
    | none => simp [he] at hl
    | some entry =>
      rw [he] at hl
      cases hl
      exact h.unlinked way hw target he
  unfold destination? at hd
  split at hd
  · next found hwalk =>
    cases hd
    exact walk_spelled h.components hunlinked hwalk
  · cases hd

end FileTree

end AssetEmbed
