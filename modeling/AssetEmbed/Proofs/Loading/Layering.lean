/-
  AssetEmbed.Proofs.Loading.Layering — where the settings of a run come from.

  The configuration file is the one that was named, or the nearest one of its
  name from the working directory upwards.  What the command line gives comes
  before what the file gives, and the defaults fill the rest.  Directories are
  seen from the one that the file is in.  It is the settings put together that
  are checked, not those of the file.

  Main results:
    * `ancestors_path`    — the directories above a place are the places above it.
    * `discovers_iff`     — which configuration file is found.
    * `gather_eq_ok_iff`  — what is gathered.
    * `load_exact`        — what is loaded, and when the settings are refused.
-/
import AssetEmbed.Proofs.Loading.Reload
import Mathlib.Data.List.Infix

namespace AssetEmbed

open Machine

/-! ## §1. The directories above a place. -/

theorem reverse_inits_concat {α : Type} (xs : List α) (x : α) :
    (xs ++ [x]).inits.reverse = (xs ++ [x]) :: xs.inits.reverse := by
  simp [List.inits_append]

/-- The first hit from the whole list back to nothing is the longest front that is one. -/
theorem find?_inits_eq_some {α : Type} {xs front : List α} {hit : List α → Bool} :
    xs.inits.reverse.find? hit = some front
      ↔ front <+: xs ∧ hit front = true
        ∧ ∀ other, other <+: xs → front.length < other.length → hit other = false := by
  induction xs using List.reverseRecOn with
  | nil =>
    have hnil : ([] : List α).inits.reverse = [[]] := rfl
    rw [hnil, List.find?_singleton, List.prefix_nil]
    constructor
    · intro h
      split at h
      · next hhit =>
        cases h
        exact ⟨rfl, hhit, fun other hother hlength => by simp [List.prefix_nil.1 hother] at hlength⟩
      · cases h
    · rintro ⟨rfl, hhit, -⟩
      rw [if_pos hhit]
  | append_singleton xs x ih =>
    rw [reverse_inits_concat, List.find?_cons]
    cases hwhole : hit (xs ++ [x]) with
    | true =>
      constructor
      · rintro ⟨⟩
        refine ⟨List.prefix_rfl, hwhole, fun other hother hlength => ?_⟩
        have hle := hother.length_le
        omega
      · rintro ⟨hfront, -, hlongest⟩
        rcases List.prefix_concat_iff.1 hfront with rfl | hfront
        · rfl
        · have hle := hfront.length_le
          have hmiss := hlongest (xs ++ [x]) List.prefix_rfl (by simp; omega)
          rw [hwhole] at hmiss
          cases hmiss
    | false =>
      dsimp only
      rw [ih]
      constructor
      · rintro ⟨hfront, hhit, hlongest⟩
        refine ⟨hfront.trans (List.prefix_append _ _), hhit, fun other hother hlength => ?_⟩
        rcases List.prefix_concat_iff.1 hother with rfl | hother
        · exact hwhole
        · exact hlongest other hother hlength
      · rintro ⟨hfront, hhit, hlongest⟩
        rcases List.prefix_concat_iff.1 hfront with rfl | hfront
        · rw [hwhole] at hhit
          cases hhit
        · exact ⟨hfront, hhit, fun other hother =>
            hlongest other (hother.trans (List.prefix_append _ _))⟩

theorem find?_inits_eq_none {α : Type} {xs : List α} {hit : List α → Bool} :
    xs.inits.reverse.find? hit = none ↔ ∀ front, front <+: xs → hit front = false := by
  simp only [List.find?_eq_none, List.mem_reverse, List.mem_inits, Bool.not_eq_true]

namespace Path

theorem trimEnd_concat {pieces : List Name} {piece : Name} (h : isIdle piece = false) :
    trimEnd (pieces ++ [piece]) = pieces ++ [piece] := by
  simp [trimEnd, h]

theorem length_le_joinSlash (pieces : List Name) :
    pieces.length ≤ (joinSlash pieces).length + 1 := by
  fun_induction joinSlash pieces with
  | case1 => simp
  | case2 piece => simp
  | case3 piece pieces hne ih =>
    simp only [List.length_cons, List.length_append]
    omega

theorem trimEnd_eq_nil_iff {pieces : List Name} :
    trimEnd pieces = [] ↔ ∀ piece ∈ pieces, isIdle piece = true := by
  simp [trimEnd, List.dropWhile_eq_nil_iff]

theorem ofPiece_of_isIdle {piece : Name} (h : isIdle piece = true) :
    Step.ofPiece piece = .here ∨ Step.ofPiece piece = .blank := by
  rw [isIdle, Bool.or_eq_true, beq_iff_eq, beq_iff_eq] at h
  rcases h with rfl | rfl
  · exact .inr rfl
  · exact .inl rfl

/-- An absolute path without a parent has no steps that lead anywhere. -/
theorem idle_of_parent? {p : Path} (hp : p.isAbsolute = true) (h : p.parent? = none) :
    ∀ step ∈ p.steps, step = .here ∨ step = .blank := by
  obtain ⟨rest, hpieces⟩ := splitSlash_of_isAbsolute hp
  unfold parent? at h
  rw [hpieces] at h
  dsimp only at h
  split at h
  · next hidle =>
    intro step hstep
    rw [steps, hpieces] at hstep
    obtain ⟨piece, hmem, rfl⟩ := List.mem_map.1 hstep
    rcases List.mem_cons.1 hmem with rfl | hmem
    · exact .inr rfl
    · exact ofPiece_of_isIdle (trimEnd_eq_nil_iff.1 hidle piece hmem)
  · cases h

end Path

namespace Location

/-- Names count as components. -/
theorem isIdle_bytes (name : EntryName) : Path.isIdle name.bytes = false := by
  simp [Path.isIdle, name.ne_nil, name.ne_dot]

theorem trimEnd_map (place : Location) :
    Path.trimEnd (place.map EntryName.bytes) = place.map EntryName.bytes := by
  rcases List.eq_nil_or_concat' place with rfl | ⟨front, name, rfl⟩
  · rfl
  · rw [List.map_append]
    exact Path.trimEnd_concat (isIdle_bytes name)

/-- The parent of a place is written as its path. -/
theorem parent?_path (place : Location) (name : EntryName) :
    (path (place ++ [name])).parent? = some (path place) := by
  have hne : (place ++ [name]).map EntryName.bytes ≠ [] := by simp
  unfold Path.parent?
  rw [splitSlash_path, if_neg (by simp)]
  dsimp only
  rw [trimEnd_map]
  split
  · next hnil => exact absurd hnil hne
  · rw [← List.map_dropLast, List.dropLast_concat, trimEnd_map]
    rfl

theorem ancestorsUpTo_path (place : Location) {fuel : Nat} (h : place.length ≤ fuel) :
    Path.ancestorsUpTo fuel (path place) = place.inits.reverse.map path := by
  induction place using List.reverseRecOn generalizing fuel with
  | nil => cases fuel <;> rfl
  | append_singleton place name ih =>
    rw [List.length_append, List.length_singleton] at h
    obtain ⟨fuel, rfl⟩ : ∃ more, fuel = more + 1 := ⟨fuel - 1, by omega⟩
    rw [Path.ancestorsUpTo, parent?_path]
    dsimp only
    rw [ih (by omega), reverse_inits_concat]
    rfl

/-- The directories above a place are the places on the way there, nearest first. -/
theorem ancestors_path (place : Location) :
    (path place).ancestors = place.inits.reverse.map path := by
  refine ancestorsUpTo_path place ?_
  have hlength := Path.length_le_joinSlash (place.map EntryName.bytes)
  simpa [path] using hlength

end Location

namespace Configuration

variable {inv : CommandLine.Invocation} {s : Machine} {found : Option Path}
  {document : Document} {c : Configuration}

/-! ## §2. Which file is found. -/

/-- The path at which a directory would hold the configuration file. -/
def candidate (inv : CommandLine.Invocation) (way : Location) : Path :=
  (Location.path way).join (nameOf inv)

/-- Whether a command line leads to a configuration file, or to none. -/
inductive Discovers (inv : CommandLine.Invocation) (s : Machine) : Option Path → Prop where
  /-- The file at an absolute path that was given. -/
  | named {name : Path} (hname : inv.config = some name) (habsolute : name.isAbsolute = true)
      (hpresent : s.files.isPresent s.current name = true) : Discovers inv s (some name)
  /-- The regular file in the nearest directory, from the working directory upwards. -/
  | nearest {way : Location} (hrelative : (nameOf inv).isAbsolute = false)
      (hway : way <+: s.current) (hfile : s.files.isFile s.current (candidate inv way) = true)
      (hnearest : ∀ other, other <+: s.current → way.length < other.length →
        s.files.isFile s.current (candidate inv other) = false) :
      Discovers inv s (some (candidate inv way))
  /-- No file, if none was asked for and none of the directories holds one. -/
  | unasked (hname : inv.config = none)
      (hnone : ∀ way, way <+: s.current → s.files.isFile s.current (candidate inv way) = false) :
      Discovers inv s none

theorem located_of_absolute (h : (nameOf inv).isAbsolute = true) :
    located inv s
      = if s.files.isPresent s.current (nameOf inv) then some (nameOf inv) else none := by
  unfold located sought
  rw [if_pos h, List.find?_singleton]
  unfold isHit
  rw [if_pos h]

theorem located_of_relative (h : (nameOf inv).isAbsolute = false) :
    located inv s = (s.current.inits.reverse.find? fun way =>
      s.files.isFile s.current (candidate inv way)).map (candidate inv) := by
  have hsought : sought inv s.current = s.current.inits.reverse.map (candidate inv) := by
    unfold sought candidates
    rw [h, if_neg Bool.false_ne_true, Location.ancestors_path, List.map_map]
    rfl
  unfold located
  rw [hsought, List.find?_map]
  unfold isHit
  rw [h]
  rfl

/-- The name that is looked for unasked is relative. -/
theorem exists_config_of_isAbsolute (h : (nameOf inv).isAbsolute = true) :
    inv.config = some (nameOf inv) := by
  unfold nameOf at h ⊢
  cases hname : inv.config with
  | none =>
    rw [hname] at h
    exact absurd h (by decide)
  | some name => rfl

theorem discovers_iff_of_absolute (habsolute : (nameOf inv).isAbsolute = true) :
    Discovers inv s found ↔ located inv s = found ∧ ¬(found.isNone ∧ inv.config.isSome) := by
  have hname := exists_config_of_isAbsolute habsolute
  rw [located_of_absolute habsolute]
  constructor
  · rintro (⟨hgiven, -, hpresent⟩ | ⟨hrelative⟩ | ⟨hnone⟩)
    · rw [hgiven] at hname
      rw [← Option.some.inj hname, if_pos hpresent]
      simp
    · rw [habsolute] at hrelative
      cases hrelative
    · rw [hnone] at hname
      cases hname
  · rintro ⟨rfl, hasked⟩
    by_cases hpresent : s.files.isPresent s.current (nameOf inv) = true
    · rw [if_pos hpresent]
      exact .named hname habsolute hpresent
    · rw [if_neg hpresent, hname] at hasked
      exact absurd ⟨rfl, rfl⟩ hasked

theorem discovers_iff_of_relative (hrelative : (nameOf inv).isAbsolute = false) :
    Discovers inv s found ↔ located inv s = found ∧ ¬(found.isNone ∧ inv.config.isSome) := by
  rw [located_of_relative hrelative]
  constructor
  · rintro (⟨hgiven, habsolute, -⟩ | ⟨-, hway, hfile, hnearest⟩ | ⟨hnone, hmissing⟩)
    · rw [nameOf, hgiven, Option.getD_some, habsolute] at hrelative
      cases hrelative
    · rw [find?_inits_eq_some.2 ⟨hway, hfile, hnearest⟩]
      simp
    · rw [find?_inits_eq_none.2 hmissing, hnone]
      simp
  · rintro ⟨rfl, hasked⟩
    cases hsearch : s.current.inits.reverse.find? fun way =>
        s.files.isFile s.current (candidate inv way) with
    | none =>
      rw [hsearch] at hasked
      exact .unasked (by simpa using hasked) (find?_inits_eq_none.1 hsearch)
    | some way =>
      obtain ⟨hway, hfile, hnearest⟩ := find?_inits_eq_some.1 hsearch
      exact .nearest hrelative hway hfile hnearest

/-- A command line leads to what is located, unless it asked for a file that is
not there. -/
theorem discovers_iff :
    Discovers inv s found ↔ located inv s = found ∧ ¬(found.isNone ∧ inv.config.isSome) := by
  cases hname : (nameOf inv).isAbsolute with
  | true => exact discovers_iff_of_absolute hname
  | false => exact discovers_iff_of_relative hname

/-! ## §3. What the file says. -/

/-- What a configuration file says: nothing if there is none, and otherwise what
its bytes stand for. -/
inductive Says (s : Machine) : Option Path → Document → Prop where
  | nothing : Says s none {}
  | file {p : Path} {bytes : List UInt8} {document : Document}
      (hread : s.files.readFile s.current p = .ok bytes)
      (hdecode : decode p bytes = .ok document) : Says s (some p) document

theorem documentAt_eq_ok_iff : documentAt s found = .ok document ↔ Says s found document := by
  constructor
  · intro h
    cases found with
    | none =>
      cases h
      exact .nothing
    | some p =>
      unfold documentAt at h
      dsimp only at h
      cases hread : s.files.readFile s.current p with
      | error e => simp [hread] at h
      | ok bytes =>
        rw [hread] at h
        dsimp only at h
        cases hdecode : decode p bytes with
        | error cause =>
          rw [hdecode] at h
          cases h
        | ok document' =>
          rw [hdecode] at h
          cases h
          exact .file hread hdecode
  · rintro (_ | ⟨hread, hdecode⟩)
    · rfl
    · unfold documentAt
      dsimp only
      rw [hread]
      dsimp only
      rw [hdecode]
      rfl

/-- A file that cannot be used is not a matter of the settings in it. -/
theorem documentAt_ne_invalid (problems : List Diagnostic) :
    documentAt s found ≠ .error (.ofCause (.configInvalid problems)) := by
  intro h
  cases found with
  | none => cases h
  | some p =>
    unfold documentAt decode at h
    dsimp only at h
    split at h
    · cases h
    · split at h
      · cases h
      · split at h <;> cases h

/-- What is gathered is told by the file that is found and by what it says. -/
theorem gather_eq_ok_iff : (s.perform (gather inv)).1 = .ok c
    ↔ ∃ found document, Discovers inv s found ∧ Says s found document
      ∧ c = gatheredFrom inv s found document := by
  rw [perform_gather]
  constructor
  · intro h
    split at h
    · cases h
    · next hasked =>
      cases hdocument : documentAt s (located inv s) with
      | error f =>
        rw [hdocument] at h
        cases h
      | ok document =>
        rw [hdocument] at h
        cases h
        exact ⟨_, document, discovers_iff.2 ⟨rfl, hasked⟩, documentAt_eq_ok_iff.1 hdocument, rfl⟩
  · rintro ⟨found, document, hfound, htold, rfl⟩
    obtain ⟨rfl, hasked⟩ := discovers_iff.1 hfound
    rw [if_neg hasked, documentAt_eq_ok_iff.2 htold]
    rfl

/-- Nothing that goes wrong before the check is put down to the settings. -/
theorem gather_ne_invalid (problems : List Diagnostic) :
    (s.perform (gather inv)).1 ≠ .error (.ofCause (.configInvalid problems)) := by
  intro h
  rw [perform_gather] at h
  split at h
  · cases h
  · cases hdocument : documentAt s (located inv s) with
    | error f =>
      rw [hdocument] at h
      cases h
      exact documentAt_ne_invalid problems hdocument
    | ok document =>
      rw [hdocument] at h
      cases h

/-! ## §4. Where settings come from. -/

/-- A setting that the command line may give, or else the file, or else neither. -/
def layered {α : Type} (first second : Option α) (fallback : α) : α :=
  match first, second with
  | some a, _ => a
  | none, some b => b
  | none, none => fallback

/-- A directory seen from the root.  An absolute one stands for itself. -/
def seenFrom (root dir : Path) : Path := if dir.isAbsolute then dir else root.join dir

/-- What relative paths are seen from: the parent of the configuration file, or
the working directory without one. -/
inductive RootedAt (s : Machine) : Option Path → Path → Prop where
  | parent {p up : Path} (hup : p.parent? = some up) : RootedAt s (some p) (normalized s up)
  | alone : RootedAt s none (normalized s (Location.path s.current))

/-- Whether a configuration is put together from what the command line gives,
what the file gives, and the defaults. -/
structure Layered (inv : CommandLine.Invocation) (s : Machine) (found : Option Path)
    (document : Document) (c : Configuration) : Prop where
  file : c.file = found.map (normalized s)
  root : RootedAt s found c.root
  scope : c.settings.scope
    = layered inv.overrides.scope document.overrides.scope Settings.default.scope
  mode : c.settings.mode
    = layered inv.overrides.mode document.overrides.mode Settings.default.mode
  target : c.settings.target
    = layered inv.overrides.target document.overrides.target Settings.default.target
  indexName : c.settings.indexName
    = layered inv.overrides.indexName document.overrides.indexName Settings.default.indexName
  bytesPerLine : c.settings.bytesPerLine
    = layered inv.overrides.bytesPerLine document.overrides.bytesPerLine
        Settings.default.bytesPerLine
  webDir : c.settings.webDir = normalized s (seenFrom c.root
    (layered inv.overrides.webDir document.overrides.webDir Settings.default.webDir))
  outputDir : c.settings.outputDir = normalized s (seenFrom c.root
    (layered inv.overrides.outputDir document.overrides.outputDir Settings.default.outputDir))

theorem layered_eq {α : Type} (first second : Option α) (fallback : α) :
    layered first second fallback = (first <|> second).getD fallback := by
  cases first <;> cases second <;> rfl

theorem seenFrom_eq (root dir : Path) : seenFrom root dir = root.join dir := by
  unfold seenFrom
  split
  · next h => rw [Path.join, if_pos h]
  · rfl

/-- A regular file is not the top, so its path has a parent. -/
theorem exists_parent {p : Path} {bytes : List UInt8} (hp : p.isAbsolute = true)
    (h : s.files.readFile s.current p = .ok bytes) : ∃ up, p.parent? = some up := by
  cases hup : p.parent? with
  | some up => exact ⟨up, rfl⟩
  | none =>
    -- without a parent the steps lead nowhere, and a directory is no file
    unfold FileTree.readFile FileTree.resolve at h
    split at h
    · next hresolve =>
      split at hresolve
      · cases hresolve
      · rw [walk_idle (Path.idle_of_parent? hp hup)] at hresolve
        cases hresolve
    all_goals cases h

/-- What relative paths are seen from is the root that is gathered. -/
theorem rootedAt_iff (hfound : Discovers inv s found) (htold : Says s found document)
    {root : Path} : RootedAt s found root ↔ root = normalized s (rootPath s.current found) := by
  cases htold with
  | nothing =>
    constructor
    · rintro ⟨⟩
      rfl
    · rintro rfl
      exact .alone
  | @file p bytes document hread _ =>
    obtain ⟨hlocated, -⟩ := discovers_iff.1 hfound
    have habsolute := isAbsolute_of_mem_sought (List.mem_of_find?_eq_some hlocated)
    obtain ⟨up, hup⟩ := exists_parent habsolute hread
    have hparent : rootPath s.current (some p) = up := by
      unfold rootPath
      rw [Option.bind_some, hup, Option.getD_some]
    rw [hparent]
    constructor
    · rintro ⟨hup'⟩
      rw [hup] at hup'
      cases hup'
      rfl
    · rintro rfl
      exact .parent hup

/-- From a file and its document just one configuration is put together: what is
gathered, with its directories normalized. -/
theorem layered_iff (hfound : Discovers inv s found) (htold : Says s found document) :
    Layered inv s found document c
      ↔ c = { gatheredFrom inv s found document with
        settings := checked s (gatheredFrom inv s found document) } := by
  constructor
  · rintro ⟨hfile, hroot, hscope, hmode, htarget, hindex, hbytes, hweb, houtput⟩
    rw [rootedAt_iff hfound htold] at hroot
    rw [layered_eq] at hscope hmode htarget hindex hbytes
    rw [layered_eq, seenFrom_eq, hroot] at hweb houtput
    obtain ⟨file, root, webDir, outputDir, scope, mode, target, indexName, bytesPerLine⟩ := c
    cases hfile
    cases hroot
    cases hscope
    cases hmode
    cases htarget
    cases hindex
    cases hbytes
    cases hweb
    cases houtput
    rfl
  · rintro rfl
    refine ⟨rfl, (rootedAt_iff hfound htold).2 rfl, ?_, ?_, ?_, ?_, ?_, ?_, ?_⟩
    all_goals
      simp only [layered_eq, seenFrom_eq]
      rfl

/-! ## §5. Loading. -/

/-- The settings are refused if what is gathered has problems. -/
theorem load_eq_invalid_iff {problems : List Diagnostic} :
    (s.perform (load inv)).1 = .error (.ofCause (.configInvalid problems))
      ↔ ∃ c', (s.perform (gather inv)).1 = .ok c' ∧ problems = (checked s c').diagnostics
        ∧ problems ≠ [] := by
  rw [perform_load_eq]
  cases hgather : (s.perform (gather inv)).1 with
  | error f =>
    constructor
    · intro h
      exact absurd (hgather.trans h) (gather_ne_invalid problems)
    · rintro ⟨c', hc', -⟩
      cases hc'
  | ok c' =>
    simp only [Except.bind, check]
    constructor
    · intro h
      split at h
      · cases h
      · next hsome =>
        cases h
        exact ⟨c', rfl, rfl, hsome⟩
    · rintro ⟨c'', hc'', rfl, hsome⟩
      cases hc''
      split
      · next hnone => exact absurd hnone hsome
      · rfl

/-- A configuration is loaded just if it is put together from the command line,
the file that this leads to, and the defaults, and has no problems as it then
is.  If it has some, these are reported, and they are not reported otherwise. -/
theorem load_exact (inv : CommandLine.Invocation) (s : Machine) :
    (∀ c, (s.perform (load inv)).1 = .ok c
      ↔ ∃ found document, Discovers inv s found ∧ Says s found document
        ∧ Layered inv s found document c ∧ c.settings.diagnostics = [])
    ∧ ∀ problems, (s.perform (load inv)).1 = .error (.ofCause (.configInvalid problems))
      ↔ ∃ found document c, Discovers inv s found ∧ Says s found document
        ∧ Layered inv s found document c ∧ problems = c.settings.diagnostics ∧ problems ≠ [] := by
  constructor
  · intro c
    rw [load_eq_ok_iff]
    constructor
    · rintro ⟨c', hgather, hnone, rfl⟩
      obtain ⟨found, document, hfound, htold, rfl⟩ := gather_eq_ok_iff.1 hgather
      exact ⟨found, document, hfound, htold, (layered_iff hfound htold).2 rfl, hnone⟩
    · rintro ⟨found, document, hfound, htold, hlayered, hnone⟩
      obtain rfl := (layered_iff hfound htold).1 hlayered
      exact ⟨_, gather_eq_ok_iff.2 ⟨found, document, hfound, htold, rfl⟩, hnone, rfl⟩
  · intro problems
    rw [load_eq_invalid_iff]
    constructor
    · rintro ⟨c', hgather, rfl, hsome⟩
      obtain ⟨found, document, hfound, htold, rfl⟩ := gather_eq_ok_iff.1 hgather
      exact ⟨found, document, _, hfound, htold, (layered_iff hfound htold).2 rfl, rfl, hsome⟩
    · rintro ⟨found, document, c, hfound, htold, hlayered, rfl, hsome⟩
      obtain rfl := (layered_iff hfound htold).1 hlayered
      exact ⟨_, gather_eq_ok_iff.2 ⟨found, document, hfound, htold, rfl⟩, rfl, hsome⟩

/-- A machine that stands below a configuration file with a scope that is none. -/
def misnamedSite : Machine :=
  .start ((FileTree.empty.putFolder [] otherName).putFile [] ⟨Utf8.encode defaultName, by decide⟩
    (Utf8.encode "[bundle]\nnamespace = \"9\"\nbytes_per_line = 4\n")) [otherName]

/-- What the file gives is not looked at where the command line gives something else. -/
example : (misnamedSite.perform (load
      { writingTo (.ofString "out") with overrides := { scope := some "ui" } })).1.toOption.map
      (fun c => (c.settings.scope, c.settings.bytesPerLine, c.root))
    = some ("ui", 4, .ofString "/") := by
  decide +kernel

end Configuration

end AssetEmbed
