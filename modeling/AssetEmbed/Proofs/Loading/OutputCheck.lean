/-
  AssetEmbed.Proofs.Loading.OutputCheck — the output directory and the assets.

  A run must not write into the directory that it collects assets from.  The
  check compares how the two normalized paths are spelled.  A path of something
  that exists is normalized to the names of its place, and so the comparison
  finds the truth.  An output directory that is still missing keeps its
  spelling; then the comparison is right if that has neither `..` nor links,
  and may be wrong in both directions if it has.

  Main results:
    * `reportsOutputDir_iff` — what the check reports.
    * `outputCheck_exact`    — when that is what happens.
-/
import AssetEmbed.Proofs.Files.Landing
import AssetEmbed.Proofs.Loading.Observation

namespace AssetEmbed

/-! ## §1. Fields. -/

namespace Settings

variable {s : Settings} {d : Diagnostic}

theorem field_of_mem_scopeProblems (h : d ∈ s.scopeProblems) : d.field = "bundle.namespace" := by
  unfold scopeProblems at h
  split at h
  · obtain ⟨piece, -, rfl⟩ := List.mem_map.1 h
    rfl
  · rw [List.mem_singleton.1 h]

theorem field_of_mem_indexNameProblems (h : d ∈ s.indexNameProblems) :
    d.field = "bundle.index_name" := by
  unfold indexNameProblems at h
  split at h
  · cases h
  · rw [List.mem_singleton.1 h]

theorem field_of_mem_bytesPerLineProblems (h : d ∈ s.bytesPerLineProblems) :
    d.field = "bundle.bytes_per_line" := by
  unfold bytesPerLineProblems at h
  split at h
  · rw [List.mem_singleton.1 h]
  · cases h

end Settings

/-! ## §2. The check. -/

namespace Configuration

open Machine

/-- The settings that are checked: those that were gathered, with normalized
directories. -/
def checked (s : Machine) (c : Configuration) : Settings :=
  { c.settings with
    webDir := normalized s (c.root.join c.settings.webDir)
    outputDir := normalized s (c.root.join c.settings.outputDir) }

/-- Whether loading fails and reports the output directory. -/
def ReportsOutputDir (inv : CommandLine.Invocation) (s : Machine) : Prop :=
  ∃ problems, (s.perform (load inv)).1 = .error (.ofCause (.configInvalid problems))
    ∧ ∃ d ∈ problems, d.field = "bundle.output_dir"

variable {inv : CommandLine.Invocation} {s s' : Machine} {c : Configuration}

theorem perform_normalizePaths (s : Machine) (c : Configuration) :
    s.perform (normalizePaths c.root c.settings) = (.ok (checked s c), s) := by
  unfold normalizePaths
  rw [perform_bind, perform_normalize]
  dsimp only
  rw [perform_bind, perform_normalize]
  rfl

/-- Loading checks the settings as the files stand before it. -/
theorem perform_load (h : s.perform (gather inv) = (.ok c, s')) :
    (s.perform (load inv)).1
      = (check { c with settings := checked s c }).mapError Failure.ofCause := by
  have hobserves := observes_gather inv
  have hfiles : s'.files = s.files := by simpa only [h] using (hobserves.alike s).files
  have hcurrent : s'.current = s.current := by simpa only [h] using (hobserves.alike s).current
  -- gathering has left the files as they are
  have hchecked : checked s' c = checked s c := by
    unfold checked normalized
    rw [hfiles, hcurrent]
  unfold load
  rw [perform_bind, h]
  dsimp only
  rw [perform_bind, perform_normalizePaths, hchecked]
  dsimp only
  cases check { c with settings := checked s c } <;> rfl

/-- What is loaded is a matter of what is gathered. -/
theorem perform_load_eq (inv : CommandLine.Invocation) (s : Machine) :
    (s.perform (load inv)).1 = (s.perform (gather inv)).1.bind fun c =>
      (check { c with settings := checked s c }).mapError Failure.ofCause := by
  cases hgather : s.perform (gather inv) with
  | mk answer next =>
    cases answer with
    | ok c => exact perform_load hgather
    | error f =>
      unfold load
      rw [perform_bind, hgather]
      rfl

/-- Only the check of the output directory names its field. -/
theorem mem_diagnostics_outputDir {settings : Settings} :
    (∃ d ∈ settings.diagnostics, d.field = "bundle.output_dir")
      ↔ settings.outputDir.startsWith settings.webDir = true := by
  constructor
  · rintro ⟨d, hd, hfield⟩
    simp only [Settings.diagnostics, List.mem_append] at hd
    -- the other rules name other fields
    rcases hd with ((hd | hd) | hd) | hd
    · rw [Settings.field_of_mem_scopeProblems hd] at hfield
      exact absurd hfield (by decide)
    · rw [Settings.field_of_mem_indexNameProblems hd] at hfield
      exact absurd hfield (by decide)
    · rw [Settings.field_of_mem_bytesPerLineProblems hd] at hfield
      exact absurd hfield (by decide)
    · unfold Settings.outputDirProblems at hd
      split at hd
      · assumption
      · cases hd
  · intro h
    have hproblems : ∃ d ∈ settings.outputDirProblems, d.field = "bundle.output_dir" := by
      unfold Settings.outputDirProblems
      rw [if_pos h]
      exact ⟨_, List.mem_cons_self, rfl⟩
    obtain ⟨d, hd, hfield⟩ := hproblems
    exact ⟨d, List.mem_append_right _ hd, hfield⟩

/-- What is reported is a matter of spelling. -/
theorem reportsOutputDir_iff (h : s.perform (gather inv) = (.ok c, s')) :
    ReportsOutputDir inv s
      ↔ (checked s c).webDir.components <+: (checked s c).outputDir.components := by
  rw [← List.isPrefixOf_iff_prefix]
  refine Iff.trans ?_ mem_diagnostics_outputDir
  unfold ReportsOutputDir
  rw [perform_load h]
  unfold check
  dsimp only
  split
  · next hnone =>
    rw [hnone]
    simp [Except.mapError]
  · next problems hsome =>
    constructor
    · rintro ⟨reported, heq, d, hd, hfield⟩
      cases heq
      exact ⟨d, hd, hfield⟩
    · rintro hd
      exact ⟨_, rfl, hd⟩

/-! ## §3. Where the directories are. -/

/-- Whether it is plain where a path leads: something is there, or the path
spells a place. -/
def Settled (s : Machine) (p : Path) : Prop :=
  (s.files.canonical? s.current p).isSome ∨ ∃ place, s.files.Spells p place

theorem spells_of_settled {p : Path} (hp : p.isAbsolute = true) (h : Settled s (normalized s p)) :
    ∃ place, s.files.Spells (normalized s p) place := by
  rcases h with h | h
  · unfold normalized at h ⊢
    -- what is there is normalized to the path of its place
    cases hq : s.files.canonical? s.current p with
    | some q => exact FileTree.spells_canonical hp hq
    | none => simp [hq, hp] at h
  · exact h

/-- The output directory is reported just if its spelling is that of the asset
root with more behind it.  Where it is plain where both lead, this is so just
if the directory that is written to lies at or below the asset root. -/
theorem outputCheck_exact (h : s.perform (gather inv) = (.ok c, s')) {web output : Location}
    (hw : s.files.resolve .target s.current (checked s c).webDir = .ok (.folder web))
    (ho : s.files.landing? s.current (checked s c).outputDir = some output) :
    s.files.destination? s.current (checked s c).outputDir = some output
      ∧ (ReportsOutputDir inv s
        ↔ (checked s c).webDir.components <+: (checked s c).outputDir.components)
      ∧ (Settled s (checked s c).webDir → Settled s (checked s c).outputDir →
        (ReportsOutputDir inv s ↔ web <+: output)) := by
  have hroot : c.root.isAbsolute = true :=
    (observes_gather inv).outcome s c (congrArg Prod.fst h)
  have hdestination := FileTree.destination?_of_landing ho
  refine ⟨hdestination, reportsOutputDir_iff h, fun hsettled hsettled' => ?_⟩
  -- both spell the places that they lead to
  obtain ⟨place, hplace⟩ := spells_of_settled (isAbsolute_join hroot) hsettled
  obtain ⟨place', hplace'⟩ := spells_of_settled (isAbsolute_join hroot) hsettled'
  rw [reportsOutputDir_iff h, hplace.resolve_eq hw, hplace'.destination_eq hdestination]
  have hcomponents := hplace.components
  have hcomponents' := hplace'.components
  unfold checked
  dsimp only
  rw [hcomponents, hcomponents', ← List.isPrefixOf_iff_prefix]
  exact Location.startsWith_path place place'

/-! ## §4. A site with two directories. -/

def webName : EntryName := ⟨Utf8.encode "web", by decide⟩

def otherName : EntryName := ⟨Utf8.encode "other", by decide⟩

def outName : EntryName := ⟨Utf8.encode "out", by decide⟩

/-- A machine that stands at the top of a tree with `web` and `other` in it. -/
def site : Machine :=
  .start ((FileTree.empty.putFolder [] webName).putFolder [] otherName) []

/-- A command line that gives an output directory and nothing else. -/
def writingTo (outputDir : Path) : CommandLine.Invocation where
  color := .never
  config := none
  verbose := false
  quiet := false
  overrides := { outputDir := some outputDir }
  command := .bundle

/-- What is gathered from that command line. -/
def gathered (outputDir : Path) : Configuration where
  file := none
  root := .ofString "/"
  settings := { Settings.default with outputDir }

theorem perform_gather_site (outputDir : Path) :
    ∃ s', site.perform (gather (writingTo outputDir)) = (.ok (gathered outputDir), s') := ⟨_, rfl⟩

theorem settled_out : Settled site (checked site (gathered (.ofString "out"))).outputDir := by
  refine .inr ⟨[outName], by decide +kernel, fun way hw target hl => ?_⟩
  rcases List.prefix_concat_iff.1 (show way <+: [] ++ [outName] from hw) with rfl | hw
  · cases hl
  · cases List.prefix_nil.1 hw
    cases hl

/-- A new directory beside the assets is not reported. -/
theorem outputCheck_exact_site : ∃ c s',
    site.perform (gather (writingTo (.ofString "out"))) = (.ok c, s')
      ∧ site.files.resolve .target site.current (checked site c).webDir = .ok (.folder [webName])
      ∧ site.files.landing? site.current (checked site c).outputDir = some [outName]
      ∧ site.files.destination? site.current (checked site c).outputDir = some [outName]
      ∧ (ReportsOutputDir (writingTo (.ofString "out")) site ↔ [webName] <+: [outName]) := by
  obtain ⟨s', h⟩ := perform_gather_site (.ofString "out")
  have hw : site.files.resolve .target site.current
      (checked site (gathered (.ofString "out"))).webDir = .ok (.folder [webName]) := rfl
  have ho : site.files.landing? site.current
      (checked site (gathered (.ofString "out"))).outputDir = some [outName] := by decide +kernel
  obtain ⟨hd, -, hexact⟩ := outputCheck_exact h hw ho
  exact ⟨_, s', h, hw, ho, hd, hexact (.inl (by decide +kernel)) settled_out⟩

/-- With `..` in its path a new directory below the assets may pass, and one
beside them may be reported. -/
theorem outputCheck_misled :
    (∃ c s', site.perform (gather (writingTo (.ofString "other/../web/out"))) = (.ok c, s')
      ∧ site.files.resolve .target site.current (checked site c).webDir = .ok (.folder [webName])
      ∧ site.files.landing? site.current (checked site c).outputDir = some [webName, outName]
      ∧ ¬ (ReportsOutputDir (writingTo (.ofString "other/../web/out")) site
        ↔ [webName] <+: [webName, outName]))
    ∧ ∃ c s', site.perform (gather (writingTo (.ofString "web/new/../../out"))) = (.ok c, s')
      ∧ site.files.resolve .target site.current (checked site c).webDir = .ok (.folder [webName])
      ∧ site.files.landing? site.current (checked site c).outputDir = some [outName]
      ∧ ¬ (ReportsOutputDir (writingTo (.ofString "web/new/../../out")) site
        ↔ [webName] <+: [outName]) := by
  constructor
  · obtain ⟨s', h⟩ := perform_gather_site (.ofString "other/../web/out")
    refine ⟨_, s', h, rfl, by decide +kernel, fun hexact => ?_⟩
    have hspelled := (reportsOutputDir_iff h).1 (hexact.2 (by decide))
    exact absurd hspelled (by decide +kernel)
  · obtain ⟨s', h⟩ := perform_gather_site (.ofString "web/new/../../out")
    refine ⟨_, s', h, rfl, by decide +kernel, fun hexact => ?_⟩
    have hreported := (reportsOutputDir_iff h).2 (by decide +kernel)
    exact absurd (hexact.1 hreported) (by decide)

end Configuration

end AssetEmbed
