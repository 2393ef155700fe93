/-
  AssetEmbed.Proofs.Files.Rewalk — walks in a tree that has been written to.

  What a run leaves behind is a tree in which all directories, links and files
  are still there, with other files beside them.  A path that led to one of them
  leads there again, and it has the canonical path that it had.

  Main results:
    * `walk_evolves`        — walks to files outlast writes.
    * `walk_split`          — a walk to a directory, and what is left of its links.
    * `canonical?_kept`     — canonical paths outlast writes.
    * `makeDirs_of_folder`  — a directory that is there is not made again.
-/
import AssetEmbed.Proofs.Files.Writing

namespace AssetEmbed

variable {look look' : Location → Option Entry} {purpose : Purpose} {links left : Nat}
  {place found parent : Location} {steps tail : List Step} {name : EntryName}
  {content : List UInt8} {r : Place}

/-! ## §1. Walks to files. -/

/-- Whether directories stay directories, files stay files, and links stay as
they are. -/
structure Evolves (look look' : Location → Option Entry) : Prop extends Keeps look look' where
  file : ∀ {way content}, look way = some (.file content) →
    ∃ content', look' way = some (.file content')

theorem Evolves.refl (look : Location → Option Entry) : Evolves look look :=
  ⟨⟨fun h => ⟨_, h⟩, fun h => h⟩, fun h => ⟨_, h⟩⟩

theorem Evolves.trans {look'' : Location → Option Entry} (h : Evolves look look')
    (h' : Evolves look' look'') : Evolves look look'' where
  folder hd := by
    obtain ⟨_, hd'⟩ := h.folder hd
    exact h'.folder hd'
  link hl := h'.link (h.link hl)
  file hf := by
    obtain ⟨_, hf'⟩ := h.file hf
    exact h'.file hf'

/-- What lies below directories does so as long as they are kept. -/
theorem Solid.keeps (h : Solid look place) (hk : Keeps look look') : Solid look' place := by
  intro way hway hne
  obtain ⟨d, hd⟩ := h way hway hne
  exact hk.folder hd

/-- Whether a walk ends at a place where a file is or may be put. -/
inductive Place.Writable : Place → Location → EntryName → Prop
  | file (parent : Location) (name : EntryName) (content : List UInt8) :
    Writable (.file parent name content) parent name
  | vacant (parent : Location) (name : EntryName) : Writable (.vacant parent name) parent name

/-- A walk to where a file is or has been put leads to the file later. -/
theorem walk_evolves (he : Evolves look look') (hr : r.Writable parent name)
    (hw : look' (parent ++ [name]) = some (.file content))
    (h : walk look purpose links place steps = .ok r) :
    walk look' purpose links place steps = .ok (.file parent name content) := by
  rw [walk_eq_ok_iff] at h ⊢
  induction h with
  | here _ ih => exact .here (ih hr)
  | blank _ ih => exact .blank (ih hr)
  | up _ ih => exact .up (ih hr)
  | enter free seen _ ih =>
    obtain ⟨d', seen'⟩ := he.folder seen
    exact .enter free seen' (ih hr)
  | follow free seen replaced _ ih => exact .follow free (he.link seen) replaced (ih hr)
  | vacant links | file links =>
    -- where a file was or nothing, there is the file now
    cases hr
    exact .file links hw
  | stop | link => cases hr

/-- What can be written where a path leads can be read there. -/
theorem walk_target (h : walk look .writing links place steps = .ok r) :
    walk look .target links place steps = .ok r := by
  rw [walk_eq_ok_iff] at h ⊢
  induction h with
  | stop links place => exact .stop links place
  | here _ ih => exact .here ih
  | blank _ ih => exact .blank ih
  | up _ ih => exact .up ih
  | vacant links seen => exact .vacant links seen
  | file links seen => exact .file links seen
  | enter _ seen _ ih => exact .enter rfl seen ih
  | link _ kept => cases kept
  | follow _ seen _ _ ih => exact .follow rfl seen (by simp) ih

/-- A walk that ends may follow more links. -/
theorem walk_mono {more : Nat} (hm : links ≤ more)
    (h : walk look purpose links place steps = .ok r) :
    walk look purpose more place steps = .ok r := by
  induction hm with
  | refl => exact h
  | step _ ih => exact walk_more_links ih

/-! ## §2. Walks in two parts. -/

/-- A walk that goes on after a directory begins there, with the links that have
not been followed on the way. -/
theorem walk_split (htail : ∀ step ∈ tail, step = .blank)
    (h : walk look .target links place (steps ++ tail) = .ok (.folder found)) :
    ∃ left, left ≤ links ∧ ∀ purpose last, last ≠ .blank →
      walk look purpose links place (steps ++ [last]) = walk look purpose left found [last] := by
  obtain ⟨left, hpasses⟩ := passes_of_walk_append htail h
  exact ⟨left, hpasses.left_le, fun purpose last hlast =>
    hpasses.walk_append ⟨last, List.mem_singleton_self last, hlast⟩⟩

/-- A walk that goes on comes to directories on its way. -/
theorem walk_front {more : List Step} (hm : more ≠ [])
    (h : walk look .target links place (steps ++ more) = .ok r) :
    ∃ found, walk look .target links place steps = .ok (.folder found) := by
  obtain ⟨left, found, hpasses, -⟩ := (walk_eq_ok_iff.1 h).passes hm
  exact ⟨found, hpasses.walk_eq⟩

/-! ## §3. Canonical paths. -/

namespace FileTree

variable {t t' : FileTree} {current : Location} {p q : Path}

theorem evolves_near (t : FileTree) : Evolves t.nearEntryAt t.entryAt where
  folder h := ⟨_, nearEntryAt_eq_some h⟩
  link h := nearEntryAt_eq_some h
  file h := ⟨_, nearEntryAt_eq_some h⟩

/-- What is near is seen as it is, and what is not is not seen at all. -/
theorem nearEntryAt_cases (place : Location) :
    (∀ t : FileTree, t.nearEntryAt place = t.entryAt place)
      ∨ ∀ t : FileTree, t.nearEntryAt place = none := by
  by_cases h : (Location.path place).bytes.length < pathLimit
  · exact .inl fun t => if_pos h
  · exact .inr fun t => if_neg h

theorem near_of_passes (h : Passes t.entryAt links place steps left found)
    (hk : Keeps t.entryAt t'.entryAt) :
    walk t'.nearEntryAt .target links place steps
      = walk t.nearEntryAt .target links place steps := by
  induction h with
  | stop => rw [walk_nil, walk_nil]
  | here _ ih => rw [walk_here, walk_here, ih]
  | blank _ ih => rw [walk_blank, walk_blank, ih]
  | up _ ih => rw [walk_up, walk_up, ih]
  | @enter _ _ place _ name _ _ seen _ ih =>
    rcases nearEntryAt_cases (place ++ [name]) with hnear | hfar
    · obtain ⟨d', seen'⟩ := hk.folder seen
      rw [walk_enter rfl ((hnear t').trans seen'), walk_enter rfl ((hnear t).trans seen), ih]
    · rw [walk_vacant rfl (hfar t'), walk_vacant rfl (hfar t)]
  | @follow _ _ place _ name _ _ seen _ ih =>
    rcases nearEntryAt_cases (place ++ [name]) with hnear | hfar
    · rw [walk_follow rfl ((hnear t').trans (hk.link seen)) (by simp),
        walk_follow rfl ((hnear t).trans seen) (by simp), ih]
    · rw [walk_vacant rfl (hfar t'), walk_vacant rfl (hfar t)]

/-- Where a path leads to a directory, the same is near on the way. -/
theorem walk_near (hk : Keeps t.entryAt t'.entryAt)
    (h : walk t.entryAt .target links place steps = .ok (.folder found)) :
    walk t'.nearEntryAt .target links place steps
      = walk t.nearEntryAt .target links place steps := by
  obtain ⟨left, hpasses⟩ := passes_of_walk h
  exact near_of_passes hpasses hk

/-- What leads to a directory keeps its canonical path. -/
theorem canonical?_kept (hk : Keeps t.entryAt t'.entryAt)
    (h : walk t.entryAt .target linkLimit (p.start current) p.steps = .ok (.folder found)) :
    t'.canonical? current p = t.canonical? current p := by
  unfold canonical?
  rw [walk_near hk h]

/-- A path to a directory leads there as long as directories and links are kept. -/
theorem resolve_keeps (hk : Keeps t.entryAt t'.entryAt)
    (h : t.resolve .target current p = .ok (.folder found)) :
    t'.resolve .target current p = .ok (.folder found) := by
  unfold resolve at h ⊢
  split at h
  · cases h
  · exact walk_keeps hk h

theorem nearEntryAt_of_solid (h : Solid t.nearEntryAt place) :
    (Location.path place).bytes.length < pathLimit := by
  by_cases hne : place = []
  · subst hne
    decide
  · obtain ⟨d, hd⟩ := h place List.prefix_rfl hne
    unfold nearEntryAt at hd
    split at hd
    · assumption
    · cases hd

/-- The canonical path of a directory is the path of its place. -/
theorem canonical?_of_folder (hp : p.isAbsolute = true)
    (h : walk t.entryAt .target linkLimit (p.start current) p.steps = .ok (.folder found))
    (hq : t.canonical? current p = some q) :
    q = Location.path found ∧ q.bytes.length < pathLimit := by
  have hstart : p.start current = [] := if_pos hp
  unfold canonical? at hq
  split at hq
  · cases hq
  · split at hq
    · next place hw =>
      cases hq
      have hfull := walk_keeps (evolves_near t).toKeeps hw
      rw [h] at hfull
      cases hfull
      rw [hstart] at hw
      exact ⟨rfl, nearEntryAt_of_solid (walk_holds stable_solid .nil hw)⟩
    · next parent name content hw =>
      -- what is seen near is there
      have hfile := nearEntryAt_eq_some (walk_holds stable_true trivial hw).2
      have hfull := walk_evolves (evolves_near t) (.file parent name content) hfile hw
      rw [h] at hfull
      cases hfull
    · cases hq

/-- What has a canonical path that leads to a directory leads there as well. -/
theorem folder_of_canonical? (hp : p.isAbsolute = true) (hq : t.canonical? current p = some q)
    (he : Evolves t.entryAt t'.entryAt)
    (hl : ∀ {way target}, t'.entryAt way = some (.link target) →
      t.entryAt way = some (.link target))
    (hd : t'.resolve .target current q = .ok (.folder found)) :
    walk t.entryAt .target linkLimit (p.start current) p.steps = .ok (.folder found) := by
  obtain ⟨place, rfl, hspells, hplace⟩ := canonical?_eq_some hp hq
  have hspells' : t'.Spells (Location.path place) place :=
    ⟨hspells.components, fun way hway target htarget => hspells.unlinked way hway target (hl htarget)⟩
  have hfound := hspells'.resolve_eq hd
  subst hfound
  rcases hplace with hwalk | ⟨content, hfile⟩
  · exact walk_keeps (evolves_near t).toKeeps hwalk
  · -- a file is no directory
    obtain ⟨content', hfile'⟩ := he.file hfile
    obtain ⟨d, hd⟩ := exists_folder_of_solid (resolve_holds (Location.isAbsolute_path found) hd)
    rw [hfile'] at hd
    cases hd

end FileTree

/-! ## §4. Paths of places. -/

theorem Path.joinSlash_concat {pieces : List Name} (hne : pieces ≠ []) (last : Name) :
    joinSlash (pieces ++ [last]) = joinSlash pieces ++ slash :: last := by
  induction pieces with
  | nil => exact absurd rfl hne
  | cons piece rest ih =>
    cases rest with
    | nil => rfl
    | cons next others =>
      have hcons : joinSlash (piece :: next :: others)
          = piece ++ slash :: joinSlash (next :: others) := rfl
      have hlast : joinSlash (piece :: next :: others ++ [last])
          = piece ++ slash :: joinSlash (next :: others ++ [last]) := rfl
      rw [hcons, hlast, ih (List.cons_ne_nil _ _), List.append_assoc, List.cons_append]

namespace Location

/-- The path of a place does not end in a separator, but for that of the top. -/
theorem getLast?_path {place : Location} (hne : place ≠ []) :
    (path place).bytes.getLast? ≠ some Path.slash := by
  obtain ⟨front, name, rfl⟩ := (List.eq_nil_or_concat place).resolve_left hne
  obtain ⟨before, hbefore⟩ : ∃ before, (path (front ++ [name])).bytes = before ++ name.bytes := by
    unfold path
    rw [List.map_append, List.map_singleton]
    by_cases hfront : front.map EntryName.bytes = []
    · exact ⟨[Path.slash], by rw [hfront]; rfl⟩
    · rw [Path.joinSlash_concat hfront]
      exact ⟨Path.slash :: Path.joinSlash (front.map EntryName.bytes) ++ [Path.slash], by simp⟩
  rw [List.concat_eq_append, hbefore, List.getLast?_append]
  intro hlast
  cases hname : name.bytes.getLast? with
  | none => exact name.ne_nil (List.getLast?_eq_none_iff.1 hname)
  | some b =>
    rw [hname] at hlast
    cases hlast
    exact name.slash_notMem (List.mem_of_getLast? hname)

/-- The path of an entry is that of its directory with a name added. -/
theorem path_join (place : Location) (name : EntryName) :
    (path place).join ⟨name.bytes⟩ = path (place ++ [name]) := by
  unfold Path.join
  rw [if_neg (Bool.eq_false_iff.1 (Path.isAbsolute_of_plain name.plain))]
  by_cases hne : place = []
  · subst hne
    rfl
  · have hbytes : (path place).bytes ≠ [] := List.cons_ne_nil _ _
    rw [if_neg (not_or.2 ⟨hbytes, getLast?_path hne⟩)]
    have hnames : place.map EntryName.bytes ≠ [] := by simpa using hne
    unfold path
    rw [List.map_append, List.map_singleton, Path.joinSlash_concat hnames]
    rfl

/-- The steps of the path of an entry are the names that lead there. -/
theorem steps_path (place : Location) (name : EntryName) :
    (path (place ++ [name])).steps
      = .blank :: (place.map Step.down ++ [Step.down name]) := by
  have hdown : (place ++ [name]).map (Step.ofPiece ∘ EntryName.bytes)
      = (place ++ [name]).map Step.down :=
    List.map_congr_left fun n _ => n.ofPiece_eq_down
  unfold Path.steps
  rw [splitSlash_path, if_neg (by simp), List.map_cons, List.map_map, hdown, List.map_append]
  rfl

end Location

theorem Passes.of_solid {names : Location} (hs : Solid look (place ++ names)) (links : Nat) :
    Passes look links place (names.map Step.down) links (place ++ names) := by
  induction names generalizing place with
  | nil =>
    rw [List.append_nil]
    exact .stop links place
  | cons name rest ih =>
    have happend : place ++ name :: rest = place ++ [name] ++ rest := by simp
    rw [happend] at hs ⊢
    obtain ⟨d, hd⟩ := hs (place ++ [name]) (List.prefix_append _ _) (by simp)
    exact .enter hd (ih hs)

/-- A walk down to a directory follows no link. -/
theorem walk_path (hs : Solid look place) (name : EntryName) :
    walk look purpose links [] (Location.path (place ++ [name])).steps
      = walk look purpose links place [.down name] := by
  have hpasses := Passes.of_solid (List.nil_append place ▸ hs) links
  rw [List.nil_append] at hpasses
  rw [Location.steps_path, walk_blank]
  exact hpasses.walk_append ⟨.down name, List.mem_singleton_self _, by simp⟩

/-- The path of a directory leads there. -/
theorem walk_path_self (hs : Solid look place) :
    walk look .target links [] (Location.path place).steps = .ok (.folder place) := by
  rcases List.eq_nil_or_concat place with rfl | ⟨front, name, rfl⟩
  · exact walk_blank.trans (walk_blank.trans walk_nil)
  · rw [List.concat_eq_append] at hs ⊢
    obtain ⟨d, hd⟩ := hs (front ++ [name]) List.prefix_rfl (by simp)
    have hfront : Solid look front := fun way hw => hs way (hw.trans (List.prefix_append _ _))
    rw [walk_path hfront, walk_name (by simp [hd]), Place.below, hd]

theorem Path.mem_joinSlash {pieces : List Name} {b : UInt8} (h : b ∈ joinSlash pieces) :
    b = slash ∨ ∃ piece ∈ pieces, b ∈ piece := by
  induction pieces with
  | nil => cases h
  | cons piece rest ih =>
    cases rest with
    | nil => exact .inr ⟨piece, List.mem_cons_self, h⟩
    | cons next others =>
      rcases List.mem_append.1 h with h | h
      · exact .inr ⟨piece, List.mem_cons_self, h⟩
      · rcases List.mem_cons.1 h with h | h
        · exact .inl h
        · rcases ih h with h | ⟨other, hother, h⟩
          · exact .inl h
          · exact .inr ⟨other, List.mem_cons_of_mem _ hother, h⟩

/-- Only its length can make the path of a place unusable. -/
theorem Location.fault?_path (hlength : (path place).bytes.length < pathLimit) :
    (path place).fault? = none := by
  have hzero : ¬ (path place).bytes.contains 0 = true := by
    simp only [List.contains_eq_mem, decide_eq_true_eq]
    intro hm
    rcases List.mem_cons.1 hm with hm | hm
    · exact absurd hm (by decide)
    · rcases Path.mem_joinSlash hm with hm | ⟨piece, hpiece, hm⟩
      · exact absurd hm (by decide)
      · obtain ⟨name, -, rfl⟩ := List.mem_map.1 hpiece
        exact name.plain.zero_notMem hm
  have hne : (path place).bytes ≠ [] := List.cons_ne_nil _ _
  unfold Path.fault?
  rw [if_neg hzero, if_neg hne, if_neg (by omega)]

namespace FileTree

variable {t : FileTree} {current : Location} {p : Path}

/-- The path of a directory leads there, if it is short enough. -/
theorem resolve_path (hs : Solid t.entryAt place)
    (hlength : (Location.path place).bytes.length < pathLimit) :
    t.resolve .target current (Location.path place) = .ok (.folder place) := by
  have hstart : (Location.path place).start current = [] := if_pos (Location.isAbsolute_path place)
  unfold resolve
  rw [Location.fault?_path hlength, hstart]
  exact walk_path_self hs

/-- All that lies above a directory is one. -/
theorem solid_of_folder {d : Directory} (h : t.entryAt place = some (.folder d)) :
    Solid t.entryAt place := by
  rintro way ⟨rest, rfl⟩ -
  cases rest with
  | nil => exact ⟨d, List.append_nil way ▸ h⟩
  | cons name names => exact Directory.folder_of_entryAt (List.cons_ne_nil name names) h

end FileTree

/-! ## §5. Directories that are there. -/

theorem Passes.entry (h : Passes look links place steps left found) :
    ∃ r, walk look .entry links place steps = .ok r ∧ ∀ parent name, r ≠ .vacant parent name := by
  induction h with
  | stop links place => exact ⟨.folder place, walk_nil, by simp⟩
  | here _ ih => rwa [walk_here]
  | blank _ ih => rwa [walk_blank]
  | up _ ih => rwa [walk_up]
  | enter seen _ ih => rwa [walk_enter rfl seen]
  | @follow _ _ place _ name rest target seen _ ih =>
    -- a link at the end is an entry itself
    by_cases hrest : rest = []
    · subst hrest
      exact ⟨.link place name target, walk_link seen, by simp⟩
    · rwa [walk_follow rfl seen (by simp [hrest])]

/-- On the way to a directory there is an entry. -/
theorem walk_entry (htail : ∀ step ∈ tail, step = .blank)
    (h : walk look .target links place (steps ++ tail) = .ok (.folder found)) :
    ∃ r, walk look .entry links place steps = .ok r ∧ ∀ parent name, r ≠ .vacant parent name := by
  obtain ⟨left, hpasses⟩ := passes_of_walk_append htail h
  exact hpasses.entry

namespace FileTree

variable {t : FileTree} {current : Location} {p : Path}

theorem fault?_withoutTrailingSlashes (h : p.fault? = none) :
    p.withoutTrailingSlashes.fault? = none := by
  obtain ⟨slashes, -, hbytes, hne⟩ := p.withoutTrailingSlashes_spec
  have hp : p.bytes ≠ [] := by
    intro hnil
    simp [Path.fault?, hnil] at h
  refine Path.fault?_of_prefix ?_ ⟨slashes, hbytes.symm⟩ h
  by_cases hslashes : slashes = []
  · rw [hslashes, List.append_nil] at hbytes
    rwa [← hbytes]
  · exact hne hslashes

/-- A directory that is there is not made again. -/
theorem makeDirs_of_folder (h : t.resolve .target current p = .ok (.folder place)) :
    t.makeDirs current p = (.ok (), t) := by
  have hfault := fault?_of_resolve h
  have hmake : t.makeDir current p = .error .alreadyExists := by
    obtain ⟨tail, htail, hsteps⟩ := p.steps_withoutTrailingSlashes
    have hstart : p.withoutTrailingSlashes.start current = p.start current := by
      unfold Path.start
      rw [p.isAbsolute_withoutTrailingSlashes]
    have hwalk := h
    unfold resolve at hwalk
    rw [hfault, hsteps] at hwalk
    obtain ⟨r, hr, hvacant⟩ := walk_entry htail hwalk
    have hresolve : t.resolve .entry current p.withoutTrailingSlashes = .ok r := by
      unfold resolve
      rw [fault?_withoutTrailingSlashes hfault, hstart]
      exact hr
    unfold makeDir
    rw [hfault, hresolve]
    cases r with
    | vacant parent name => exact absurd rfl (hvacant parent name)
    | folder place => rfl
    | file parent name content => rfl
    | link parent name target => rfl
  have hensure : t.ensureDir current p = .ok t := by
    unfold ensureDir isDirectory
    rw [hmake, h]
    rfl
  unfold makeDirs makeDirsUpTo
  rw [if_neg (ne_nil_of_resolve h), hmake, hensure]

end FileTree

end AssetEmbed
