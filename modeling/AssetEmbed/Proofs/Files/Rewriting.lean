/-
  AssetEmbed.Proofs.Files.Rewriting — writing the same files again.

  A write leads, perhaps through links, to one place, and puts its content
  there.  Later its path leads there again, so that the same writes done again
  put the same contents at the same places, each of them over what the last
  write to its place has left.

  Main results:
    * `overwritten_twice`   — writing again what was written changes nothing.
    * `WritesAll.received`  — to which places files have been written.
    * `Receives.writesAll`  — they can be written there again.
    * `Leads.canonical`     — also by the canonical path of the directory.
-/
import AssetEmbed.Proofs.Files.Rewalk

namespace AssetEmbed

/-! ## §1. Contents. -/

/-- What files hold after writes to places one after another. -/
def overwritten :
    List (Location × List UInt8) → (Location → Option (List UInt8)) → Location → Option (List UInt8)
  | [], contents => contents
  | (place, content) :: rest, contents =>
    overwritten rest (Function.update contents place (some content))

section
variable {writes : List (Location × List UInt8)} {before before' : Location → Option (List UInt8)}
  {place : Location}

/-- A place to which nothing is written keeps what it held. -/
theorem overwritten_of_notMem (h : place ∉ writes.map Prod.fst) :
    overwritten writes before place = before place := by
  induction writes generalizing before with
  | nil => rfl
  | cons write rest ih =>
    rw [List.map_cons, List.mem_cons, not_or] at h
    exact (ih h.2).trans (Function.update_of_ne h.1 _ _)

/-- The last write to a place does not depend on what was there. -/
theorem overwritten_congr (h : place ∉ writes.map Prod.fst → before place = before' place) :
    overwritten writes before place = overwritten writes before' place := by
  induction writes generalizing before before' with
  | nil => exact h List.not_mem_nil
  | cons write rest ih =>
    refine ih fun hrest => ?_
    by_cases hplace : place = write.1
    · rw [hplace, Function.update_self, Function.update_self]
    · rw [Function.update_of_ne hplace, Function.update_of_ne hplace]
      exact h (by simp [hplace, hrest])

/-- Writing again what was written changes nothing. -/
theorem overwritten_twice (writes : List (Location × List UInt8))
    (before : Location → Option (List UInt8)) :
    overwritten writes (overwritten writes before) = overwritten writes before :=
  funext fun _ => overwritten_congr overwritten_of_notMem

end

/-! ## §2. One write. -/

theorem Grows.file {after : Option Entry} {content : List UInt8}
    (h : Grows (some (.file content)) after) : after = some (.file content) := by
  cases h
  rfl

namespace FileTree

variable {t t' : FileTree} {current place : Location} {p dir : Path} {content : List UInt8}

/-- Making directories leaves files, links and directories where they are. -/
theorem Grown.evolves (h : Grown t' t) : Evolves t.entryAt t'.entryAt where
  toKeeps := h.keeps
  file {way content} hf := ⟨content, Grows.file (hf ▸ h way)⟩

/-- A write leaves files, links and directories where they are. -/
theorem Puts.evolves (h : Puts t t' place content) : Evolves t.entryAt t'.entryAt where
  toKeeps := h.keeps
  file {way old} hf := by
    by_cases hw : way = place
    · exact ⟨content, hw ▸ h.written⟩
    · exact ⟨old, Grows.file (hf ▸ h.others way hw)⟩

theorem Puts.contentAt_eq (h : Puts t t' place content) :
    t'.contentAt = Function.update t.contentAt place (some content) := by
  funext way
  by_cases hw : way = place
  · rw [hw, Function.update_self]
    exact contentAt_eq_some.2 h.written
  · rw [Function.update_of_ne hw]
    exact contentAt_of_grows (h.others way hw)

/-- The place of the file that a path leads to, perhaps through links. -/
def fileAt? (t : FileTree) (current : Location) (p : Path) : Option Location :=
  match t.resolve .target current p with
  | .ok (.file parent name _) => some (parent ++ [name])
  | _ => none

/-- Whether a path leads to a file at a place, so that it can be written there. -/
def Leads (t : FileTree) (current : Location) (p : Path) (place : Location) : Prop :=
  ∃ parent name content, t.resolve .writing current p = .ok (.file parent name content)
    ∧ place = parent ++ [name]

theorem Leads.fileAt?_eq (h : t.Leads current p place) : t.fileAt? current p = some place := by
  obtain ⟨parent, name, content, hr, rfl⟩ := h
  have hread : t.resolve .target current p = .ok (.file parent name content) := by
    unfold resolve at hr ⊢
    split at hr
    · cases hr
    · exact walk_target hr
  unfold fileAt?
  rw [hread]

/-- What a path led to for a write is a file there later. -/
theorem leads_of_writable {parent : Location} {name : EntryName} {r : Place}
    (he : Evolves t.entryAt t'.entryAt) (hr : r.Writable parent name)
    (hw : ∃ content, t'.entryAt (parent ++ [name]) = some (.file content))
    (h : t.resolve .writing current p = .ok r) : t'.Leads current p (parent ++ [name]) := by
  obtain ⟨content, hw⟩ := hw
  refine ⟨parent, name, content, ?_, rfl⟩
  unfold resolve at h ⊢
  split at h
  · cases h
  · exact walk_evolves he hr hw h

theorem Leads.evolves (h : t.Leads current p place) (he : Evolves t.entryAt t'.entryAt) :
    t'.Leads current p place := by
  obtain ⟨parent, name, content, hr, rfl⟩ := h
  have hfile : t.entryAt (parent ++ [name]) = some (.file content) := by
    have hholds := hr
    unfold resolve at hholds
    split at hholds
    · cases hholds
    · exact (walk_holds stable_true trivial hholds).2
  exact leads_of_writable he (.file parent name content) (he.file hfile) hr

/-- A write puts its content at one place, and its path leads there afterwards. -/
theorem writeFile_spec (hp : p.isAbsolute = true) (h : t.writeFile current p content = .ok t') :
    ∃ place, Puts t t' place content ∧ t'.Leads current p place := by
  have hputs : ∃ parent name r, t.resolve .writing current p = .ok r ∧ r.Writable parent name
      ∧ Puts t t' (parent ++ [name]) content := by
    unfold writeFile at h
    cases hr : t.resolve .writing current p with
    | error e => simp [hr] at h
    | ok r =>
      rw [hr] at h
      have hholds := resolve_holds hp hr
      cases r with
      | folder place => cases h
      | link parent name target => cases h
      | file parent name old =>
        cases h
        obtain ⟨hsolid, hentry⟩ := hholds
        exact ⟨parent, name, _, rfl, .file parent name old,
          puts_putFile hsolid (by simp [hentry]) (by simp [hentry])⟩
      | vacant parent name =>
        cases h
        obtain ⟨hsolid, hentry⟩ := hholds
        exact ⟨parent, name, _, rfl, .vacant parent name,
          puts_putFile hsolid (by simp [hentry]) (by simp [hentry])⟩
  obtain ⟨parent, name, r, hr, hwritable, hputs⟩ := hputs
  exact ⟨_, hputs, leads_of_writable hputs.evolves hwritable ⟨content, hputs.written⟩ hr⟩

/-- Where a path leads to a file, this can be written again. -/
theorem Leads.writeFile (hp : p.isAbsolute = true) (h : t.Leads current p place)
    (content : List UInt8) :
    ∃ t', t.writeFile current p content = .ok t' ∧ Puts t t' place content := by
  obtain ⟨parent, name, old, hr, rfl⟩ := h
  obtain ⟨hsolid, hentry⟩ := resolve_holds hp hr
  refine ⟨t.putFile parent name content, ?_, ?_⟩
  · unfold FileTree.writeFile
    rw [hr]
  · exact puts_putFile hsolid (by simp [hentry]) (by simp [hentry])

/-! ## §3. All writes. -/

variable {files : List Rendered} {writes : List (Location × List UInt8)}

/-- Whether the files of a directory lead to places to which their contents are
written. -/
def Receives (t : FileTree) (current : Location) (dir : Path) :
    List Rendered → List (Location × List UInt8) → Prop :=
  List.Forall₂ fun r write =>
    t.Leads current (r.path dir) write.1 ∧ write.2 = Utf8.encode r.content

theorem Receives.evolves (h : t.Receives current dir files writes)
    (he : Evolves t.entryAt t'.entryAt) : t'.Receives current dir files writes :=
  h.imp fun _ _ hr => ⟨hr.1.evolves he, hr.2⟩

/-- Files that have been written one after another can be found at their places. -/
theorem WritesAll.received (h : WritesAll current dir t files t') (hp : dir.isAbsolute = true) :
    Evolves t.entryAt t'.entryAt ∧ ∃ writes, t'.Receives current dir files writes
      ∧ t'.contentAt = overwritten writes t.contentAt := by
  induction h with
  | nil t => exact ⟨.refl _, [], .nil, rfl⟩
  | @cons t between t' r rest hfirst _ ih =>
    obtain ⟨place, hputs, hleads⟩ := writeFile_spec (isAbsolute_join hp) hfirst
    obtain ⟨hevolves, writes, hreceives, hcontents⟩ := ih
    refine ⟨hputs.evolves.trans hevolves, (place, Utf8.encode r.content) :: writes, ?_, ?_⟩
    · exact .cons ⟨hleads.evolves hevolves, rfl⟩ hreceives
    · rw [hcontents, hputs.contentAt_eq]
      rfl

/-- Files can be written one after another to where they are. -/
theorem Receives.writesAll (h : t.Receives current dir files writes) (hp : dir.isAbsolute = true) :
    ∃ t', WritesAll current dir t files t' ∧ Evolves t.entryAt t'.entryAt
      ∧ t'.contentAt = overwritten writes t.contentAt := by
  induction files generalizing t writes with
  | nil =>
    cases h
    exact ⟨t, .nil t, .refl _, rfl⟩
  | cons r rest ih =>
    cases h with
    | @cons _ write _ writes hr hrest =>
      obtain ⟨place, content⟩ := write
      obtain ⟨hleads, rfl⟩ := hr
      obtain ⟨between, hfirst, hputs⟩ := hleads.writeFile (isAbsolute_join hp) _
      obtain ⟨t', hothers, hevolves, hcontents⟩ :=
        ih (Receives.evolves hrest hputs.evolves)
      refine ⟨t', .cons hfirst hothers, hputs.evolves.trans hevolves, ?_⟩
      rw [hcontents, hputs.contentAt_eq]
      rfl

/-- A file of a directory is also found by the canonical path of the directory. -/
theorem Leads.canonical {name : Name} {landing : Location}
    (h : t.Leads current (dir.join ⟨name⟩) place) (hn : name.Plain) (hp : dir.isAbsolute = true)
    (hd : t.resolve .target current dir = .ok (.folder landing))
    (hlength : ((Location.path landing).join ⟨name⟩).bytes.length < pathLimit) :
    t.Leads current ((Location.path landing).join ⟨name⟩) place := by
  obtain ⟨parent, last, content, hr, rfl⟩ := h
  have hne := ne_nil_of_resolve hd
  obtain ⟨front, tail, htail, hsteps, hjoin⟩ := Path.steps_join hne hn
  have hsolid : Solid t.entryAt landing := resolve_holds hp hd
  -- from the directory on the walk goes down one name, with some links left
  obtain ⟨left, hleft, hwalk⟩ : ∃ left, left ≤ linkLimit
      ∧ walk t.entryAt .writing left landing [Step.ofPiece name]
        = .ok (.file parent last content) := by
    unfold resolve at hd hr
    split at hd
    · cases hd
    · split at hr
      · cases hr
      · rw [hsteps] at hd
        obtain ⟨left, hleft, hsame⟩ := walk_split htail hd
        rw [hjoin, Path.start, Path.isAbsolute_join_eq hne (Path.isAbsolute_of_plain hn),
          ← Path.start, hsame _ _ (Step.ofPiece_ne_blank hn)] at hr
        exact ⟨left, hleft, hr⟩
  refine ⟨parent, last, content, ?_, rfl⟩
  by_cases hu : name.isUsable = true
  · have hstep : Step.ofPiece name = .down ⟨name, hu⟩ := step_of_name rfl
    have hpath : (Location.path landing).join ⟨name⟩ = Location.path (landing ++ [⟨name, hu⟩]) :=
      Location.path_join landing ⟨name, hu⟩
    rw [hpath] at hlength ⊢
    have hstart : (Location.path (landing ++ [⟨name, hu⟩])).start current = [] :=
      if_pos (Location.isAbsolute_path _)
    rw [hstep] at hwalk
    unfold resolve
    rw [Location.fault?_path hlength, hstart]
    dsimp only
    rw [walk_path hsolid]
    exact walk_mono hleft hwalk
  · -- a name that is too long leads nowhere
    rw [Step.ofPiece_of_plain hn, dif_neg hu] at hwalk
    cases left <;> cases hwalk

end FileTree

end AssetEmbed
