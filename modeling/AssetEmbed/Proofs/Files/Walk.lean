/-
  AssetEmbed.Proofs.Files.Walk — where walks end.

  A walk that finds something goes in one of a few ways, and what it passes on
  its way are directories.  So it only stands in directories, and what it finds
  is really there.  A path whose components are names none of which leads to a
  link can only end at the place that it spells.  A walk to a directory stays the
  same as long as all directories and links stay, and it can be continued by one
  more name.

  Main results:
    * `walk_eq_ok_iff`     — how walks go that find something.
    * `Passes.walk_append` — what a walk does after it has passed some steps.
    * `walk_holds`         — what a walk finds is there.
    * `canonical?_eq_some` — a canonical path spells its place.
    * `Spells.resolve_eq`  — a path that spells a place leads to no other.
    * `walk_keeps`         — walks to directories outlast other changes.
    * `walk_concat`        — a walk to a directory, and one step more.
    * `walk_made`          — a walk to where a directory has been made.
-/
import AssetEmbed.FileTree.Query
import AssetEmbed.Proofs.Files.Spelling

namespace AssetEmbed

variable {look : Location → Option Entry} {purpose : Purpose} {links left : Nat}
  {place found : Location} {steps rest tail : List Step} {name : EntryName} {target : Path}
  {r : Place}

/-! ## §1. Single steps. -/

theorem Purpose.refuses_nil : purpose.refuses [] = false := by simp [Purpose.refuses]

@[simp] theorem walk_nil : walk look purpose links place [] = .ok (.folder place) := by
  cases links <;> rfl

@[simp] theorem walk_here :
    walk look purpose links place (.here :: rest) = walk look purpose links place rest := by
  cases links <;> rfl

@[simp] theorem walk_blank :
    walk look purpose links place (.blank :: rest) = walk look purpose links place rest := by
  cases links <;> rfl

@[simp] theorem walk_up : walk look purpose links place (.up :: rest)
    = walk look purpose links place.dropLast rest := by
  cases links <;> rfl

theorem walk_vacant (hr : purpose.refuses rest = false) (h : look (place ++ [name]) = none) :
    walk look purpose links place (.down name :: rest)
      = if rest = [] then .ok (.vacant place name) else .error .notFound := by
  cases links <;> simp [walk, walkSteps, hr, h]

theorem walk_file {content : List UInt8} (hr : purpose.refuses rest = false)
    (h : look (place ++ [name]) = some (.file content)) :
    walk look purpose links place (.down name :: rest)
      = if rest = [] then .ok (.file place name content) else .error .notADirectory := by
  cases links <;> simp [walk, walkSteps, hr, h]

theorem walk_enter {d : Directory} (hr : purpose.refuses rest = false)
    (h : look (place ++ [name]) = some (.folder d)) :
    walk look purpose links place (.down name :: rest)
      = walk look purpose links (place ++ [name]) rest := by
  cases links <;> simp [walk, walkSteps, hr, h]

theorem walk_link (h : look (place ++ [name]) = some (.link target)) :
    walk look .entry links place [.down name] = .ok (.link place name target) := by
  cases links <;> simp [walk, walkSteps, Purpose.refuses, h]

theorem walk_follow (hr : purpose.refuses rest = false)
    (h : look (place ++ [name]) = some (.link target)) (hlast : ¬(rest = [] ∧ purpose = .entry)) :
    walk look purpose (links + 1) place (.down name :: rest)
      = walk look purpose links (target.start place) (target.steps ++ rest) := by
  simp [walk, walkSteps, hr, h, hlast]

/-! ## §2. How walks go. -/

/-- How a walk goes that finds something. -/
inductive Walks (look : Location → Option Entry) (purpose : Purpose) :
    Nat → Location → List Step → Place → Prop
  | stop (links : Nat) (place : Location) : Walks look purpose links place [] (.folder place)
  | here {links : Nat} {place : Location} {rest : List Step} {r : Place}
      (next : Walks look purpose links place rest r) :
      Walks look purpose links place (.here :: rest) r
  | blank {links : Nat} {place : Location} {rest : List Step} {r : Place}
      (next : Walks look purpose links place rest r) :
      Walks look purpose links place (.blank :: rest) r
  | up {links : Nat} {place : Location} {rest : List Step} {r : Place}
      (next : Walks look purpose links place.dropLast rest r) :
      Walks look purpose links place (.up :: rest) r
  | vacant (links : Nat) {place : Location} {name : EntryName}
      (seen : look (place ++ [name]) = none) :
      Walks look purpose links place [.down name] (.vacant place name)
  | file (links : Nat) {place : Location} {name : EntryName} {content : List UInt8}
      (seen : look (place ++ [name]) = some (.file content)) :
      Walks look purpose links place [.down name] (.file place name content)
  | enter {links : Nat} {place : Location} {name : EntryName} {rest : List Step} {d : Directory}
      {r : Place} (free : purpose.refuses rest = false)
      (seen : look (place ++ [name]) = some (.folder d))
      (next : Walks look purpose links (place ++ [name]) rest r) :
      Walks look purpose links place (.down name :: rest) r
  | link (links : Nat) {place : Location} {name : EntryName} {target : Path}
      (kept : purpose = .entry) (seen : look (place ++ [name]) = some (.link target)) :
      Walks look purpose links place [.down name] (.link place name target)
  | follow {links : Nat} {place : Location} {name : EntryName} {rest : List Step} {target : Path}
      {r : Place} (free : purpose.refuses rest = false)
      (seen : look (place ++ [name]) = some (.link target))
      (replaced : ¬(rest = [] ∧ purpose = .entry))
      (next : Walks look purpose links (target.start place) (target.steps ++ rest) r) :
      Walks look purpose (links + 1) place (.down name :: rest) r

theorem walk_of_walks (h : Walks look purpose links place steps r) :
    walk look purpose links place steps = .ok r := by
  induction h with
  | stop => exact walk_nil
  | here _ ih => exact walk_here.trans ih
  | blank _ ih => exact walk_blank.trans ih
  | up _ ih => exact walk_up.trans ih
  | vacant links seen => exact walk_vacant Purpose.refuses_nil seen
  | file links seen => exact walk_file Purpose.refuses_nil seen
  | enter free seen _ ih => exact (walk_enter free seen).trans ih
  | link links kept seen =>
    subst kept
    exact walk_link seen
  | follow free seen replaced _ ih => exact (walk_follow free seen replaced).trans ih

theorem walks_of_walkSteps {jump : Location → List Step → Except FileError Place}
    (hj : ∀ {place name rest target}, purpose.refuses rest = false →
      look (place ++ [name]) = some (.link target) → ¬(rest = [] ∧ purpose = .entry) →
      jump (target.start place) (target.steps ++ rest) = .ok r →
      Walks look purpose links place (.down name :: rest) r)
    (h : walkSteps look purpose jump place steps = .ok r) :
    Walks look purpose links place steps r := by
  induction steps generalizing place with
  | nil =>
    cases h
    exact .stop links place
  | cons step rest ih =>
    cases step with
    | here => exact .here (ih h)
    | blank => exact .blank (ih h)
    | up => exact .up (ih h)
    | overlong =>
      simp only [walkSteps] at h
      split at h <;> cases h
    | down name =>
      simp only [walkSteps] at h
      split at h
      · cases h
      · next hr =>
        rw [Bool.not_eq_true] at hr
        split at h
        · next seen =>
          split at h
          · next hrest =>
            cases h
            cases hrest
            exact .vacant links seen
          · cases h
        · next d seen => exact .enter hr seen (ih h)
        · next content seen =>
          split at h
          · next hrest =>
            cases h
            cases hrest
            exact .file links seen
          · cases h
        · next target seen =>
          split at h
          · next hlast =>
            cases h
            obtain ⟨rfl, kept⟩ := hlast
            exact .link links kept seen
          · next hlast => exact hj hr seen hlast h

/-- A walk finds something in one of these ways. -/
theorem walk_eq_ok_iff :
    walk look purpose links place steps = .ok r ↔ Walks look purpose links place steps r := by
  refine ⟨fun h => ?_, walk_of_walks⟩
  induction links generalizing place steps r with
  | zero => exact walks_of_walkSteps (fun _ _ _ hj => by cases hj) h
  | succ links ih => exact walks_of_walkSteps (fun hr seen hlast hj => .follow hr seen hlast (ih hj)) h

/-! ## §3. Steps that are passed. -/

/-- How a walk goes on that has steps before it: it is in a directory then, with
some of its links left. -/
inductive Passes (look : Location → Option Entry) :
    Nat → Location → List Step → Nat → Location → Prop
  | stop (links : Nat) (place : Location) : Passes look links place [] links place
  | here {links left : Nat} {place found : Location} {rest : List Step}
      (next : Passes look links place rest left found) :
      Passes look links place (.here :: rest) left found
  | blank {links left : Nat} {place found : Location} {rest : List Step}
      (next : Passes look links place rest left found) :
      Passes look links place (.blank :: rest) left found
  | up {links left : Nat} {place found : Location} {rest : List Step}
      (next : Passes look links place.dropLast rest left found) :
      Passes look links place (.up :: rest) left found
  | enter {links left : Nat} {place found : Location} {name : EntryName} {rest : List Step}
      {d : Directory} (seen : look (place ++ [name]) = some (.folder d))
      (next : Passes look links (place ++ [name]) rest left found) :
      Passes look links place (.down name :: rest) left found
  | follow {links left : Nat} {place found : Location} {name : EntryName} {rest : List Step}
      {target : Path} (seen : look (place ++ [name]) = some (.link target))
      (next : Passes look links (target.start place) (target.steps ++ rest) left found) :
      Passes look (links + 1) place (.down name :: rest) left found

theorem refuses_append (h : ∃ step ∈ rest, step ≠ .blank) (steps : List Step) :
    purpose.refuses (steps ++ rest) = false := by
  obtain ⟨step, hmem, hne⟩ := h
  simp only [Purpose.refuses, Bool.and_eq_false_iff]
  refine .inr ?_
  rw [List.all_append, Bool.and_eq_false_iff]
  exact .inr (List.all_eq_false.2 ⟨step, hmem, by simpa using hne⟩)

/-- After it has passed steps a walk does what it would do from there on. -/
theorem Passes.walk_append (h : Passes look links place steps left found)
    (hrest : ∃ step ∈ rest, step ≠ .blank) :
    walk look purpose links place (steps ++ rest) = walk look purpose left found rest := by
  induction h with
  | stop => rfl
  | here _ ih => exact walk_here.trans ih
  | blank _ ih => exact walk_blank.trans ih
  | up _ ih => exact walk_up.trans ih
  | enter seen _ ih => exact (walk_enter (refuses_append hrest _) seen).trans ih
  | follow seen _ ih =>
    have hne : rest ≠ [] := by
      rintro rfl
      obtain ⟨step, hmem, -⟩ := hrest
      cases hmem
    rw [List.cons_append, walk_follow (refuses_append hrest _) seen (by simp [hne]),
      ← List.append_assoc, ih]

theorem Passes.left_le (h : Passes look links place steps left found) : left ≤ links := by
  induction h with
  | stop => exact Nat.le_refl _
  | here _ ih => exact ih
  | blank _ ih => exact ih
  | up _ ih => exact ih
  | enter _ _ ih => exact ih
  | follow _ _ ih => exact Nat.le_succ_of_le ih

/-- A walk passes the steps before its last ones. -/
theorem Walks.passes {more : List Step} (hm : more ≠ [])
    (h : Walks look purpose links place (steps ++ more) r) :
    ∃ left found, Passes look links place steps left found
      ∧ Walks look purpose left found more r := by
  generalize hall : steps ++ more = all at h
  induction h generalizing steps with
  | stop => simp [hm] at hall
  | here next ih | blank next ih | up next ih =>
    obtain ⟨rfl, rfl⟩ | ⟨rest, rfl, rfl⟩ := List.append_eq_cons_iff.1 hall
    · exact ⟨_, _, .stop _ _, by constructor; exact next⟩
    · obtain ⟨left, found, hpasses, hwalks⟩ := ih rfl
      exact ⟨left, found, by constructor; exact hpasses, hwalks⟩
  | enter free seen next ih =>
    obtain ⟨rfl, rfl⟩ | ⟨rest, rfl, rfl⟩ := List.append_eq_cons_iff.1 hall
    · exact ⟨_, _, .stop _ _, .enter free seen next⟩
    · obtain ⟨left, found, hpasses, hwalks⟩ := ih rfl
      exact ⟨left, found, .enter seen hpasses, hwalks⟩
  | follow free seen replaced next ih =>
    obtain ⟨rfl, rfl⟩ | ⟨rest, rfl, rfl⟩ := List.append_eq_cons_iff.1 hall
    · exact ⟨_, _, .stop _ _, .follow free seen replaced next⟩
    · obtain ⟨left, found, hpasses, hwalks⟩ := ih (List.append_assoc _ _ _)
      exact ⟨left, found, .follow seen hpasses, hwalks⟩
  | vacant links seen | file links seen =>
    -- nothing comes after a name that is not entered
    obtain ⟨rfl, rfl⟩ | ⟨rest, rfl, hrest⟩ := List.append_eq_cons_iff.1 hall
    · exact ⟨_, _, .stop _ _, by constructor; exact seen⟩
    · simp [hm] at hrest
  | link links kept seen =>
    obtain ⟨rfl, rfl⟩ | ⟨rest, rfl, hrest⟩ := List.append_eq_cons_iff.1 hall
    · exact ⟨_, _, .stop _ _, .link links kept seen⟩
    · simp [hm] at hrest

/-- Steps that name nothing stay where they are. -/
theorem walk_idle (h : ∀ step ∈ steps, step = .here ∨ step = .blank) :
    walk look purpose links place steps = .ok (.folder place) := by
  induction steps with
  | nil => exact walk_nil
  | cons step rest ih =>
    obtain ⟨rfl | rfl, hrest⟩ := List.forall_mem_cons.1 h
    · exact walk_here.trans (ih hrest)
    · exact walk_blank.trans (ih hrest)

/-- Steps between separators stay where they are. -/
theorem walk_blanks (h : ∀ step ∈ steps, step = .blank) :
    walk look purpose links place steps = .ok (.folder place) :=
  walk_idle fun step hs => .inr (h step hs)

/-- A walk to a directory has passed its steps. -/
theorem passes_of_walk (h : walk look .target links place steps = .ok (.folder found)) :
    ∃ left, Passes look links place steps left found := by
  rw [walk_eq_ok_iff] at h
  generalize hr : Place.folder found = r at h
  induction h with
  | stop links =>
    cases hr
    exact ⟨links, .stop links found⟩
  | here _ ih => exact (ih hr).imp fun _ => .here
  | blank _ ih => exact (ih hr).imp fun _ => .blank
  | up _ ih => exact (ih hr).imp fun _ => .up
  | enter _ seen _ ih => exact (ih hr).imp fun _ => .enter seen
  | follow _ seen _ _ ih => exact (ih hr).imp fun _ => .follow seen
  | vacant | file | link => cases hr

/-- Separators behind the steps make no difference. -/
theorem passes_of_walk_append (htail : ∀ step ∈ tail, step = .blank)
    (h : walk look .target links place (steps ++ tail) = .ok (.folder found)) :
    ∃ left, Passes look links place steps left found := by
  by_cases hne : tail = []
  · rw [hne, List.append_nil] at h
    exact passes_of_walk h
  · obtain ⟨left, between, hpasses, hwalks⟩ := (walk_eq_ok_iff.1 h).passes hne
    have hblank := walk_of_walks hwalks
    rw [walk_blanks htail] at hblank
    cases hblank
    exact ⟨left, hpasses⟩

/-- A walk that has passed its steps has found a directory. -/
theorem Passes.walk_eq (h : Passes look links place steps left found) :
    walk look .target links place steps = .ok (.folder found) := by
  induction h with
  | stop => exact walk_nil
  | here _ ih => exact walk_here.trans ih
  | blank _ ih => exact walk_blank.trans ih
  | up _ ih => exact walk_up.trans ih
  | enter seen _ ih => exact (walk_enter rfl seen).trans ih
  | follow seen _ ih => exact (walk_follow rfl seen (by simp)).trans ih

/-- A walk that goes on for one more step after a directory, whatever separators
stand behind the directory's name. -/
theorem walk_concat {last : Step} {r : Except FileError Place} (hlast : last ≠ .blank)
    (hr : ∀ links, walk look purpose links found [last] = r)
    (htail : ∀ step ∈ tail, step = .blank)
    (h : walk look .target links place (steps ++ tail) = .ok (.folder found)) :
    walk look purpose links place (steps ++ [last]) = r := by
  obtain ⟨left, hpasses⟩ := passes_of_walk_append htail h
  exact (hpasses.walk_append ⟨last, List.mem_singleton_self last, hlast⟩).trans (hr left)

/-- What a walk finds under a name in a directory if it does not follow links. -/
def Place.below (look : Location → Option Entry) (parent : Location) (name : EntryName) : Place :=
  match look (parent ++ [name]) with
  | none => .vacant parent name
  | some (.folder _) => .folder (parent ++ [name])
  | some (.file content) => .file parent name content
  | some (.link target) => .link parent name target

theorem walk_name (hl : ∀ target, look (place ++ [name]) ≠ some (.link target)) (links : Nat) :
    walk look purpose links place [.down name] = .ok (Place.below look place name) := by
  unfold Place.below
  cases hentry : look (place ++ [name]) with
  | none => exact walk_vacant Purpose.refuses_nil hentry
  | some entry =>
    cases entry with
    | file content => exact walk_file Purpose.refuses_nil hentry
    | folder d => exact (walk_enter Purpose.refuses_nil hentry).trans walk_nil
    | link target => exact absurd hentry (hl target)

/-! ## §4. What walks find. -/

/-- Whether every step of a walk leads from places with a property to places
with that property. -/
structure Stable (look : Location → Option Entry) (I : Location → Prop) : Prop where
  up : ∀ {place}, I place → I place.dropLast
  down : ∀ {place name d}, I place → look (place ++ [name]) = some (.folder d) →
    I (place ++ [name])
  start : ∀ {place} (target : Path), I place → I (target.start place)

/-- Whether what a walk has found is there, and the directory that holds it has
a property. -/
def Place.Holds (look : Location → Option Entry) (I : Location → Prop) : Place → Prop
  | .folder place => I place
  | .file parent name content => I parent ∧ look (parent ++ [name]) = some (.file content)
  | .link parent name target => I parent ∧ look (parent ++ [name]) = some (.link target)
  | .vacant parent name => I parent ∧ look (parent ++ [name]) = none

/-- What a walk finds is there. -/
theorem walk_holds {I : Location → Prop} (hI : Stable look I) (hs : I place)
    (h : walk look purpose links place steps = .ok r) : r.Holds look I := by
  -- only a name or a link leads to another place
  rw [walk_eq_ok_iff] at h
  induction h with
  | stop => exact hs
  | here _ ih => exact ih hs
  | blank _ ih => exact ih hs
  | up _ ih => exact ih (hI.up hs)
  | vacant _ seen => exact ⟨hs, seen⟩
  | file _ seen => exact ⟨hs, seen⟩
  | enter _ seen _ ih => exact ih (hI.down hs seen)
  | link _ _ seen => exact ⟨hs, seen⟩
  | follow _ _ _ _ ih => exact ih (hI.start _ hs)

theorem stable_true : Stable look fun _ => True where
  up _ := trivial
  down _ _ := trivial
  start _ _ := trivial

/-- Whether a place and all places on the way to it are directories. -/
def Solid (look : Location → Option Entry) (place : Location) : Prop :=
  ∀ way, way <+: place → way ≠ [] → ∃ d, look way = some (.folder d)

theorem Solid.nil : Solid look [] := fun _ hw hne => absurd (List.prefix_nil.1 hw) hne

theorem stable_solid : Stable look (Solid look) where
  up {place} h way hw := h way (hw.trans (List.dropLast_prefix place))
  down {place name d} h hd way hw hne := by
    rcases List.prefix_concat_iff.1 hw with rfl | hw
    · exact ⟨d, hd⟩
    · exact h way hw hne
  start target h := by
    unfold Path.start
    split
    · exact .nil
    · exact h

/-! ## §5. Paths that spell a place. -/

namespace FileTree

variable {t : FileTree} {current : Location}

/-- Whether a path spells a place: its components are the names that lead there
from the top, and none of these leads to a link. -/
structure Spells (t : FileTree) (p : Path) (place : Location) : Prop where
  components : p.components = (Location.path place).components
  unlinked : ∀ way, way <+: place → ∀ target, t.entryAt way ≠ some (.link target)

theorem nearEntryAt_eq_some {place : Location} {entry : Entry}
    (h : t.nearEntryAt place = some entry) : t.entryAt place = some entry := by
  unfold nearEntryAt at h
  split at h
  · exact h
  · cases h

theorem unlinked_of_solid {place : Location} (h : Solid t.nearEntryAt place) {way : Location}
    (hw : way <+: place) (target : Path) : t.entryAt way ≠ some (.link target) := by
  intro hl
  by_cases hne : way = []
  · subst hne
    cases hl
  · obtain ⟨d, hd⟩ := h way hw hne
    rw [nearEntryAt_eq_some hd] at hl
    cases hl

/-- A canonical path spells the place of what is there. -/
theorem canonical?_eq_some {p q : Path} (hp : p.isAbsolute = true)
    (h : t.canonical? current p = some q) :
    ∃ place, q = Location.path place ∧ t.Spells q place
      ∧ (walk t.nearEntryAt .target linkLimit (p.start current) p.steps = .ok (.folder place)
        ∨ ∃ content, t.entryAt place = some (.file content)) := by
  -- the walk begins at the top, where everything so far is a directory
  have hstart : Solid t.nearEntryAt (p.start current) := by
    unfold Path.start
    rw [if_pos hp]
    exact .nil
  unfold canonical? at h
  split at h
  · cases h
  · split at h
    · next place hw =>
      cases h
      refine ⟨place, rfl, ⟨rfl, fun way hway => ?_⟩, .inl hw⟩
      exact unlinked_of_solid (walk_holds stable_solid hstart hw) hway
    · next parent name content hw =>
      cases h
      obtain ⟨hsolid, hfile⟩ := walk_holds stable_solid hstart hw
      have hentry := nearEntryAt_eq_some hfile
      refine ⟨parent ++ [name], rfl, ⟨rfl, fun way hway target hl => ?_⟩, .inr ⟨content, hentry⟩⟩
      rcases List.prefix_concat_iff.1 hway with rfl | hway
      · rw [hentry] at hl
        cases hl
      · exact unlinked_of_solid hsolid hway target hl
    · cases h

theorem spells_canonical {p q : Path} (hp : p.isAbsolute = true)
    (h : t.canonical? current p = some q) : ∃ place, t.Spells q place := by
  obtain ⟨place, -, hspells, -⟩ := canonical?_eq_some hp h
  exact ⟨place, hspells⟩

theorem passes_spelled {pieces : List Name} {base names : Location}
    (hc : pieces.filterMap Path.Component.ofPiece = names.components)
    (hl : ∀ way, way <+: base ++ names → ∀ target, look way ≠ some (.link target))
    (h : Passes look links base (pieces.map Step.ofPiece) left place) : place = base ++ names := by
  -- the names that are left are those of the pieces that are left
  induction pieces generalizing base names with
  | nil =>
    cases h
    rw [List.map_eq_nil_iff.1 hc.symm, List.append_nil]
  | cons piece rest ih =>
    by_cases hidle : piece = [] ∨ piece = Path.dot
    · have hnone : Path.Component.ofPiece piece = none := if_pos hidle
      rw [List.filterMap_cons_none hnone] at hc
      rcases hidle with rfl | rfl <;> cases h with | _ next => exact ih hc hl next
    by_cases hup : piece = Path.dotDot
    · -- The names of a place do not go up.
      have hparent : Path.Component.ofPiece piece = some .parent := by
        rw [Path.Component.ofPiece, if_neg hidle, if_pos hup]
      rw [List.filterMap_cons_some hparent] at hc
      cases names <;> cases hc
    · have hname : Path.Component.ofPiece piece = some (.normal piece) := by
        rw [Path.Component.ofPiece, if_neg hidle, if_neg hup]
      rw [List.filterMap_cons_some hname] at hc
      cases names with
      | nil => cases hc
      | cons name others =>
        obtain ⟨hbytes, hothers⟩ := List.cons.inj hc
        -- a piece that is a name leads down to it, and nothing there is a link
        have hpiece : piece = name.bytes := Path.Component.normal.inj hbytes
        subst hpiece
        rw [List.map_cons, name.ofPiece_eq_down] at h
        have happend : base ++ name :: others = base ++ [name] ++ others := by simp
        rw [happend] at hl ⊢
        cases h with
        | enter _ next => exact ih hothers hl next
        | follow seen => exact absurd seen (hl _ (List.prefix_append _ _) _)

/-- A walk down names none of which is a link ends at no other directory. -/
theorem walk_spelled {links : Nat} {current : Location} {p : Path} {place found : Location}
    (hc : p.components = (Location.path place).components)
    (hl : ∀ way, way <+: place → ∀ target, look way ≠ some (.link target))
    (h : walk look .target links (p.start current) p.steps = .ok (.folder found)) :
    found = place := by
  rw [Location.components_path] at hc
  have habsolute := Path.isAbsolute_of_components hc
  rw [Path.components, if_pos habsolute] at hc
  rw [Path.start, if_pos habsolute] at h
  have hways : ∀ way, way <+: [] ++ place → ∀ target, look way ≠ some (.link target) := hl
  obtain ⟨left, hpasses⟩ := passes_of_walk h
  exact passes_spelled (List.cons.inj hc).2 hways hpasses

/-- A path that spells a place leads to no other directory. -/
theorem Spells.resolve_eq {p : Path} {place found : Location} (h : t.Spells p place)
    (hr : t.resolve .target current p = .ok (.folder found)) : found = place := by
  unfold resolve at hr
  split at hr
  · cases hr
  · exact walk_spelled h.components h.unlinked hr

end FileTree

/-! ## §6. Walks in a tree that has changed. -/

/-- Whether directories stay directories, and links stay as they are. -/
structure Keeps (look look' : Location → Option Entry) : Prop where
  folder : ∀ {way d}, look way = some (.folder d) → ∃ d', look' way = some (.folder d')
  link : ∀ {way target}, look way = some (.link target) → look' way = some (.link target)

section
variable {look' : Location → Option Entry} {parent : Location} {d : Directory}

theorem Passes.keeps (h : Passes look links place steps left found) (hk : Keeps look look') :
    Passes look' links place steps left found := by
  -- on its way there are only directories and links, and both are kept
  induction h with
  | stop links place => exact .stop links place
  | here _ ih => exact .here ih
  | blank _ ih => exact .blank ih
  | up _ ih => exact .up ih
  | enter seen _ ih =>
    obtain ⟨d', seen'⟩ := hk.folder seen
    exact .enter seen' ih
  | follow seen _ ih => exact .follow (hk.link seen) ih

/-- A walk to a directory is the same wherever directories and links are kept. -/
theorem walk_keeps (hk : Keeps look look')
    (h : walk look .target links place steps = .ok (.folder found)) :
    walk look' .target links place steps = .ok (.folder found) := by
  obtain ⟨left, hpasses⟩ := passes_of_walk h
  exact (hpasses.keeps hk).walk_eq

/-- A walk to where nothing was ends in the directory that has been made there,
also with separators behind its name. -/
theorem walk_made (hk : Keeps look look') (hd : look' (parent ++ [name]) = some (.folder d))
    (htail : ∀ step ∈ tail, step = .blank)
    (h : walk look purpose links place steps = .ok (.vacant parent name)) :
    walk look' .target links place (steps ++ tail) = .ok (.folder (parent ++ [name])) := by
  rw [walk_eq_ok_iff] at h
  generalize hr : Place.vacant parent name = r at h
  induction h with
  | here _ ih => exact walk_here.trans (ih hr)
  | blank _ ih => exact walk_blank.trans (ih hr)
  | up _ ih => exact walk_up.trans (ih hr)
  | enter _ seen _ ih =>
    obtain ⟨d', seen'⟩ := hk.folder seen
    exact (walk_enter rfl seen').trans (ih hr)
  | follow _ seen _ _ ih =>
    rw [List.cons_append, walk_follow rfl (hk.link seen) (by simp), ← List.append_assoc]
    exact ih hr
  | vacant =>
    -- here is the place that was vacant
    cases hr
    exact (walk_enter rfl hd).trans (walk_blanks htail)
  | stop | file | link => cases hr

end

end AssetEmbed
