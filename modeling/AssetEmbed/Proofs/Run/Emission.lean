/-
  AssetEmbed.Proofs.Run.Emission — what a run does to the files.

  A run looks at the files until everything is rendered.  Then it makes the
  output directory and writes one file after another, the index last.  So when
  it fails before, nothing has happened; when it fails later, the files that
  have been written are complete and no other file has changed.

  Main results:
    * `course_run`    — how a run can go.
    * `run_failed`    — what a run that fails leaves behind.
    * `run_generated` — what a run that succeeds has done.
-/
import AssetEmbed.Proofs.Files.Writing
import AssetEmbed.Proofs.Loading.OutputCheck
import AssetEmbed.Proofs.Run.Collecting

namespace AssetEmbed

open Machine

variable {α β : Type}

/-! ## §1. Writing the files. -/

namespace Machine

variable {s : Machine}

theorem perform_writeFile (p : Path) (content : List UInt8) (s : Machine) :
    s.perform (Host.writeFile p content)
      = match s.files.writeFile s.current p content with
        | .ok files => (.ok (.ok ()), { s with files })
        | .error e => (.ok (.error e), s) := by
  have hattempt : s.perform (Host.writeFile p content)
      = (.ok (attempt (fun files current => files.writeFile current p content) s).1,
          (attempt (fun files current => files.writeFile current p content) s).2) := rfl
  rw [hattempt]
  unfold attempt
  dsimp only
  cases s.files.writeFile s.current p content <;> rfl

theorem perform_makeDirs (p : Path) (s : Machine) :
    s.perform (Host.makeDirs p)
      = (.ok (s.files.makeDirs s.current p).1,
          { s with files := (s.files.makeDirs s.current p).2 }) := rfl

/-- Files are written until one cannot be. -/
theorem perform_writeRendered (dir : Path) (files : List Rendered) (s : Machine) :
    (∃ s', s.perform (writeRendered dir files) = (.ok (files.map (·.path dir)), s')
        ∧ FileTree.WritesAll s.current dir s.files files s'.files ∧ s'.current = s.current)
      ∨ ∃ k, ∃ hk : k < files.length, ∃ e s',
        s.perform (writeRendered dir files)
            = (.error (.ofCause (.bundle (.write (files[k].path dir) e))), s')
          ∧ FileTree.WritesAll s.current dir s.files (files.take k) s'.files := by
  induction files generalizing s with
  | nil => exact .inl ⟨s, rfl, .nil _, rfl⟩
  | cons r rest ih =>
    unfold writeRendered
    rw [perform_bind, perform_writeFile]
    cases hw : s.files.writeFile s.current (dir.join (.ofString r.fileName))
        (Utf8.encode r.content) with
    | error e => exact .inr ⟨0, Nat.succ_pos _, e, s, rfl, .nil _⟩
    | ok between =>
      dsimp only
      obtain ⟨next, hnext, htwins⟩ :=
        (tells_debugMessage "emit" ("wrote " ++ r.fileName)).perform_bind { s with files := between }
      rw [hnext, perform_bind]
      have hrest := ih next
      rw [htwins.files, htwins.current] at hrest
      -- what the others write is written after the first file
      rcases hrest with ⟨s', hs', hwrites, hcurrent⟩ | ⟨k, hk, e, s', hs', hwrites⟩
      · rw [hs']
        exact .inl ⟨s', rfl, .cons hw hwrites, hcurrent⟩
      · rw [hs']
        exact .inr ⟨k + 1, Nat.succ_lt_succ hk, e, s', rfl, .cons hw hwrites⟩

end Machine

/-! ## §2. Jobs. -/

/-- What a run of a command line generates on a machine, and where. -/
structure Job (inv : CommandLine.Invocation) (s : Machine) where
  config : Configuration
  bundle : Bundle
  files : List Rendered
  /-- The place of the output directory. -/
  place : Location
  loads : (s.perform (Configuration.load inv)).1 = .ok config
  collects : (s.perform (collectFor config.settings inv.quiet)).1 = .ok bundle
  renders : render bundle config.settings = .ok files
  lands : s.files.landing? s.current config.settings.outputDir = some place

namespace Job

variable {inv : CommandLine.Invocation} {s : Machine}

/-- The path of a file of a job. -/
def path (job : Job inv s) (r : Rendered) : Path := r.path job.config.settings.outputDir

/-- Whether no file of a job would be written where a link is. -/
def Unlinked (job : Job inv s) : Prop := s.files.Unlinked job.place job.files

/-- Whether a tree is that of the machine with the output directory made. -/
structure Ready (job : Job inv s) (made : FileTree) : Prop where
  grown : FileTree.Grown made s.files
  leads : made.resolve .target s.current job.config.settings.outputDir = .ok (.folder job.place)

end Job

/-! ## §3. How runs go. -/

/-- How a run can go, with its outcome and the machine after it. -/
inductive Course (inv : CommandLine.Invocation) (s : Machine) :
    Except Failure Outcome → Machine → Prop
  /-- It only looks at the files, to the end or to a failure. -/
  | looked {outcome : Except Failure Outcome} {s' : Machine} (files : s'.files = s.files)
      (unwritten : ∀ report, outcome ≠ .ok (.generated report))
      (failure : ∀ f, outcome = .error f → ¬ f.cause.Writes) : Course inv s outcome s'
  /-- It fails to make the output directory. -/
  | unmade {f : Failure} {s' : Machine} {path : Path} {e : FileError}
      (cause : f.cause = .bundle (.createDir path e))
      (grown : FileTree.Grown s'.files s.files) : Course inv s (.error f) s'
  /-- It fails to write a file. -/
  | stopped (job : Job inv s) {made : FileTree} (ready : job.Ready made) {k : Nat}
      (hk : k < job.files.length) {f : Failure} {s' : Machine} {e : FileError}
      (cause : f.cause = .bundle (.write (job.path job.files[k]) e))
      (writes : FileTree.WritesAll s.current job.config.settings.outputDir made
        (job.files.take k) s'.files) : Course inv s (.error f) s'
  /-- It writes all files. -/
  | finished (job : Job inv s) {made : FileTree} (ready : job.Ready made) {s' : Machine}
      (current : s'.current = s.current)
      (writes : FileTree.WritesAll s.current job.config.settings.outputDir made job.files
        s'.files) :
      Course inv s (.ok (.generated ⟨job.files.map job.path, job.bundle.size⟩)) s'

section
variable {inv : CommandLine.Invocation} {s s' s'' : Machine} {outcome : Except Failure Outcome}

/-- Only the files and the current directory of the last machine count. -/
theorem Course.alike (h : Course inv s outcome s') (ha : Alike s' s'') :
    Course inv s outcome s'' := by
  obtain ⟨hfiles, hcurrent⟩ := ha
  cases h with
  | looked files unwritten failure => exact .looked (hfiles.trans files) unwritten failure
  | unmade cause grown => exact .unmade cause (hfiles ▸ grown)
  | stopped job ready hk cause writes => exact .stopped job ready hk cause (hfiles ▸ writes)
  | finished job ready current writes =>
    exact .finished job ready (hcurrent.trans current) (hfiles ▸ writes)

/-- What was being done at a failure does not count. -/
theorem Course.within {f : Failure} (h : Course inv s (.error f) s') (context : String) :
    Course inv s (.error (f.within context)) s' := by
  cases h with
  | looked files _ failure =>
    refine .looked files (fun report h => by cases h) fun f' hf' => ?_
    cases hf'
    exact failure f rfl
  | unmade cause grown => exact .unmade cause grown
  | stopped job ready hk cause writes => exact .stopped job ready hk cause writes

theorem Course.of_failure {f : Failure} (hfiles : s'.files = s.files) (hf : ¬ f.cause.Writes) :
    Course inv s (.error f) s' := by
  refine .looked hfiles (fun report h => by cases h) fun f' hf' => ?_
  cases hf'
  exact hf

variable {c : Configuration} {b : Bundle}

theorem tells_tellCollected (b : Bundle) :
    Tells (tellCollected b : ExceptT Failure (StateM Machine) Unit) () := by
  unfold tellCollected
  split <;> exact tells_tell _

/-- From the assets on a run renders, makes the output directory and writes. -/
theorem course_emit (hload : (s.perform (Configuration.load inv)).1 = .ok c)
    (hcollect : (s.perform (collectFor c.settings inv.quiet)).1 = .ok b) (ha : Alike s s') :
    Course inv s ((s'.perform (emit b c.settings)).1.map .generated)
      (s'.perform (emit b c.settings)).2 := by
  have habsolute := ((Configuration.looks_load inv).outcome s c hload).2
  unfold emit
  rw [perform_bind]
  cases hrender : render b c.settings with
  | error e =>
    exact .of_failure ha.files (not_writes_of_plan (render_eq_error_iff.1 hrender))
  | ok files =>
    have hperform : s'.perform (Failure.ofBundle (.ok files)) = (.ok files, s') := rfl
    rw [hperform]
    dsimp only
    rw [perform_bind, perform_makeDirs, ha.files, ha.current]
    have hgrown := FileTree.grown_makeDirs s.files s.current c.settings.outputDir
    cases hmade : s.files.makeDirs s.current c.settings.outputDir with
    | mk answer made =>
      rw [hmade] at hgrown
      cases answer with
      | error e => exact .unmade rfl hgrown
      | ok u =>
        obtain ⟨landing, hlanding, hresolve⟩ := FileTree.exists_landing habsolute hmade
        let job : Job inv s := ⟨c, b, files, landing, hload, hcollect, hrender, hlanding⟩
        have hready : job.Ready made := ⟨hgrown, hresolve⟩
        dsimp only
        rw [perform_bind]
        -- the files are written from the tree on in which the directory has been made
        have hwrites := perform_writeRendered c.settings.outputDir files { s' with files := made }
        dsimp only at hwrites
        rw [ha.current] at hwrites
        rcases hwrites with ⟨next, hnext, hwrites, hcurrent⟩ | ⟨k, hk, e, next, hnext, hwrites⟩
        · rw [hnext]
          exact .finished job hready hcurrent hwrites
        · rw [hnext]
          exact .stopped job hready hk rfl hwrites

/-- After the files have been written a run only tells what it has done. -/
theorem tells_written (c : Configuration) (b : Bundle) (r : Report) :
    Tells (do
      if c.settings.mode = .split then tellUnits b r
      logMessage "bundle"
        ("Generated " ++ r.indexDisplay c ++ " with " ++ pluralCount r.assets "file")
      return r : ExceptT Failure (StateM Machine) Report) r := by
  have hlast : Tells (logMessage "bundle"
      ("Generated " ++ r.indexDisplay c ++ " with " ++ pluralCount r.assets "file")
      >>= fun _ => (pure r : ExceptT Failure (StateM Machine) Report)) r :=
    (tells_tell _).bind (.pure r)
  have hunits : Tells (tellUnits b r : ExceptT Failure (StateM Machine) Unit) () :=
    tells_forM (fun _ => tells_tell _) _
  dsimp only
  split
  · exact hunits.bind hlast
  · exact hlast

theorem course_generate (hload : (s.perform (Configuration.load inv)).1 = .ok c)
    (ha : Twins s s') :
    Course inv s ((s'.perform (generate c inv.quiet)).1.map .generated)
      (s'.perform (generate c inv.quiet)).2 := by
  unfold generate
  dsimp only
  obtain ⟨s₁, hs₁, ha₁⟩ := (tells_debugMessage "bundle" _).perform_bind s'
  rw [hs₁]
  -- collecting finds what it finds on the first machine
  have hgathers := gathers_collectFor c.settings inv.quiet
  have hanswer := hgathers.answer s s₁ (ha.trans ha₁)
  have ha₂ := (ha.trans ha₁).trans (hgathers.twins s₁)
  have hfailure := hgathers.failure s₁
  rw [perform_bind]
  cases hcollect : s₁.perform (collectFor c.settings inv.quiet) with
  | mk answer s₂ =>
    rw [hcollect] at hanswer ha₂ hfailure
    cases answer with
    | error f => exact .of_failure ha₂.files (hfailure f rfl)
    | ok b =>
      dsimp only
      obtain ⟨s₃, hs₃, ha₃⟩ := Tells.perform_bind (tells_tellCollected b) s₂
      rw [hs₃, perform_bind, perform_during]
      have hemit := course_emit hload hanswer (ha₂.trans ha₃).toAlike
      cases hwritten : s₃.perform (emit b c.settings) with
      | mk written s₄ =>
        rw [hwritten] at hemit
        cases written with
        | error f => exact hemit.within _
        | ok r =>
          obtain ⟨s₅, hs₅, ha₅⟩ := tells_written c b r s₄
          dsimp only [Except.mapError] at hs₅ ⊢
          rw [hs₅]
          exact Course.alike hemit ha₅.toAlike

/-- How a run can go. -/
theorem course_run (inv : CommandLine.Invocation) (s : Machine) :
    Course inv s (s.run inv).1 (s.run inv).2 := by
  have hlooks := Configuration.looks_load inv
  have ha := hlooks.twins s
  have hfailure := hlooks.failure s
  unfold Machine.run runProgram
  rw [perform_bind]
  cases hload : s.perform (Configuration.load inv) with
  | mk answer s₁ =>
    rw [hload] at ha hfailure
    have hload' := congrArg Prod.fst hload
    cases answer with
    | error f => exact .of_failure ha.files (hfailure f rfl)
    | ok c =>
      dsimp only
      split
      · rw [perform_bind]
        have hgenerate := course_generate hload' ha
        cases hrun : s₁.perform (generate c inv.quiet) with
        | mk outcome s₂ =>
          rw [hrun] at hgenerate
          cases outcome <;> exact hgenerate
      · next queries json _ =>
        obtain ⟨hanswer, ha', -⟩ := perform_listAssets c queries json s₁
        have hfailure' := (gathers_listable c).failure s₁
        rw [perform_bind]
        cases hlist : s₁.perform (listAssets c queries json) with
        | mk listed s₂ =>
          rw [hlist] at hanswer ha'
          have hfiles := ha'.files.trans ha.files
          cases listed with
          | ok _ => exact .looked hfiles (fun report h => by cases h) fun f hf => by cases hf
          | error f =>
            -- the failure is that of collecting
            cases hlistable : (s₁.perform (listable c)).1 with
            | ok b => simp [hlistable, Except.map] at hanswer
            | error f' =>
              rw [hlistable] at hanswer
              cases hanswer
              exact .of_failure hfiles (hfailure' f hlistable)

end

/-! ## §4. The files of a job. -/

namespace FileTree

variable {t t' made : FileTree} {place : Location} {files : List Rendered}

/-- Making directories does not count for what has been written. -/
theorem Wrote.of_grown (h : Wrote made t' place files) (hg : Grown made t) :
    Wrote t t' place files :=
  ⟨h.written, fun way hw => (h.others way hw).trans (contentAt_of_grows (hg way))⟩

theorem Unlinked.of_grown (h : t.Unlinked place files) (hg : Grown made t) :
    made.Unlinked place files :=
  fun r hr way hw target hl => h r hr way hw target (Grows.of_link (hl ▸ hg way))

end FileTree

namespace Job

variable {inv : CommandLine.Invocation} {s : Machine} (job : Job inv s)

/-- The index file of a job. -/
def index : Rendered := (indexUnit job.bundle job.config.settings).rendered job.config.settings

theorem plan_eq : plan job.bundle job.config.settings
    = .ok (units job.bundle job.config.settings) := by
  obtain ⟨us, hplan, -⟩ := render_eq_ok_iff.1 job.renders
  rw [hplan, (accepted_of_plan hplan).1]

theorem files_eq : job.files
    = (units job.bundle job.config.settings).map (·.rendered job.config.settings) := by
  have hrender := render_eq_ok_iff.2 ⟨_, job.plan_eq, rfl⟩
  exact Except.ok.inj (job.renders.symm.trans hrender)

theorem isAbsolute_outputDir : job.config.settings.outputDir.isAbsolute = true :=
  ((Configuration.looks_load inv).outcome s job.config job.loads).2

theorem files_split (h : job.config.settings.mode = .split) :
    job.files = job.bundle.assets.map (fun a => (assetUnit a).rendered job.config.settings)
      ++ [job.index] := by
  rw [files_eq, units, h]
  simp [index]

/-- The index is the last file of a job. -/
theorem exists_files_eq_concat : ∃ front, job.files = front ++ [job.index] := by
  cases h : job.config.settings.mode with
  | combined =>
    refine ⟨[], ?_⟩
    rw [files_eq, units, h]
    rfl
  | split => exact ⟨_, job.files_split h⟩

theorem plain_of_mem_files {r : Rendered} (h : r ∈ job.files) :
    Name.Plain (Utf8.encode r.fileName) := by
  have hdiagnostics := ((Configuration.looks_load inv).outcome s job.config job.loads).1
  have hindex : Settings.isStem job.config.settings.indexName.toList = true := by
    simp only [Settings.diagnostics, List.append_eq_nil_iff] at hdiagnostics
    have hproblems := hdiagnostics.1.1.2
    unfold Settings.indexNameProblems at hproblems
    split at hproblems
    · assumption
    · cases hproblems
  rw [files_eq] at h
  obtain ⟨u, hu, rfl⟩ := List.mem_map.1 h
  exact plain_of_isStem (Settings.isStem_fileName (isStem_of_mem_units hindex hu) _)

/-- The names of the files of a job differ in more than case. -/
theorem nodup_lowerNames :
    (job.files.map fun r => MediaType.asciiLower r.fileName).Nodup := by
  rw [files_eq, List.map_map]
  exact nodup_fileNames job.plan_eq

theorem nodup_names : (job.files.map Rendered.fileName).Nodup := by
  have hlower := job.nodup_lowerNames
  rw [← Function.comp_def MediaType.asciiLower, ← List.map_map] at hlower
  exact hlower.of_map

/-- Where there is no link at all, none is in the way. -/
theorem unlinked_of_linkless (h : s.files.top.linkless = true) : job.Unlinked :=
  fun _ _ way _ target => Directory.entryAt_ne_link h way target

/-- What there is after some of the files of a job have been written, when no
link is in the way. -/
theorem wrote_of_writesAll {made t' : FileTree} {front rest : List Rendered}
    (hready : job.Ready made) (hfiles : job.files = front ++ rest) (hl : job.Unlinked)
    (hw : FileTree.WritesAll s.current job.config.settings.outputDir made front t') :
    s.files.Wrote t' job.place front
      ∧ (∀ r ∈ rest, ∀ way, r.place? job.place = some way →
        t'.contentAt way = s.files.contentAt way)
      ∧ t'.resolve .target s.current job.config.settings.outputDir = .ok (.folder job.place)
      ∧ ∀ r ∈ front, (job.path r).fault? = none := by
  have hsub : ∀ r ∈ front, r ∈ job.files := fun r hr => hfiles ▸ List.mem_append_left _ hr
  have hnames := job.nodup_names
  rw [hfiles, List.map_append, List.nodup_append] at hnames
  have hunlinked : s.files.Unlinked job.place front := fun r hr => hl r (hsub r hr)
  obtain ⟨hwrote, hleads, hfaults⟩ := hw.wrote job.isAbsolute_outputDir hready.leads
    (fun r hr => job.plain_of_mem_files (hsub r hr)) hnames.1 (hunlinked.of_grown hready.grown)
  have hwrote' := hwrote.of_grown hready.grown
  refine ⟨hwrote', fun r hr way hway => hwrote'.others way fun c hc heq => ?_, hleads, hfaults⟩
  -- a later file has another name than those that have been written
  have hname := Utf8.encode_injective (Location.eq_of_child? heq hway)
  exact hnames.2.2 _ (List.mem_map_of_mem hc) _ (List.mem_map_of_mem hr) hname

end Job

/-! ## §5. Runs that fail. -/

section
variable {inv : CommandLine.Invocation} {s s' : Machine}

/-- A tree with a script in `web`, and an empty directory `out`. -/
def scriptSite : FileTree :=
  ((FileTree.empty.putFolder [] Configuration.webName).putFile [Configuration.webName]
    ⟨Utf8.encode "app.js", by decide⟩ [0x61]).putFolder [] Configuration.outName

/-- The name of the index file that is generated unless another is asked for. -/
def defaultIndex : EntryName := ⟨Utf8.encode "web_bundle.hpp", by decide⟩

/-- A command line that asks for one file for each asset. -/
def splitting : CommandLine.Invocation :=
  { Configuration.writingTo (.ofString "out") with
    overrides := { outputDir := some (.ofString "out"), mode := some .split } }

/-- A run that succeeds reports the paths of its files in the output directory,
in order and with the index last; their names differ in more than case.  If no
link is in the way, then each of these files has its content afterwards and can
be read at its path, and no other file has changed. -/
theorem run_generated {report : Report} (h : s.run inv = (.ok (.generated report), s')) :
    ∃ job : Job inv s,
      report.files = job.files.map job.path
        ∧ report.assets = job.bundle.assets.length
        ∧ (∀ r ∈ job.files, (job.path r).components
          = job.config.settings.outputDir.components ++ [.normal (Utf8.encode r.fileName)])
        ∧ (job.files.map fun r => MediaType.asciiLower r.fileName).Nodup
        ∧ (job.config.settings.mode = .split → job.files
          = job.bundle.assets.map (fun a => (assetUnit a).rendered job.config.settings)
            ++ [job.index])
        ∧ job.files.getLast? = some job.index
        ∧ (job.Unlinked → s.files.Wrote s'.files job.place job.files
          ∧ ∀ r ∈ job.files, s'.files.readFile s'.current (job.path r)
            = .ok (Utf8.encode r.content)) := by
  have hcourse := course_run inv s
  rw [h] at hcourse
  cases hcourse with
  | looked _ unwritten _ => exact absurd rfl (unwritten report)
  | finished job ready current writes =>
    obtain ⟨front, hfront⟩ := job.exists_files_eq_concat
    refine ⟨job, rfl, rfl, fun r hr => ?_, job.nodup_lowerNames, job.files_split, ?_, fun hl => ?_⟩
    · exact Path.components_child job.isAbsolute_outputDir (job.plain_of_mem_files hr)
    · rw [hfront, List.getLast?_concat]
    · obtain ⟨hwrote, -, hleads, hfaults⟩ := job.wrote_of_writesAll ready
        (List.append_nil job.files).symm hl writes
      refine ⟨hwrote, fun r hr => ?_⟩
      obtain ⟨way, hway, hcontent⟩ := hwrote.written r hr
      rw [current]
      exact FileTree.readFile_child hleads (job.plain_of_mem_files hr) (hfaults r hr) hway hcontent

/-- A machine on which there is an older index file. -/
def staleSite : Machine :=
  .start (scriptSite.putFile [Configuration.outName] defaultIndex [0x6F, 0x6C, 0x64]) []

/-- Nothing is left of an older index file. -/
theorem run_generated_staleSite : ∃ report s',
    staleSite.run splitting = (.ok (.generated report), s')
      ∧ report.files = [.ofString "/out/app_js.hpp", .ofString "/out/web_bundle.hpp"]
      ∧ ∃ job : Job splitting staleSite, report.files = job.files.map job.path
        ∧ staleSite.files.Wrote s'.files job.place job.files := by
  have hsucceeds : (staleSite.run splitting).1 = .ok (.generated
      ⟨[.ofString "/out/app_js.hpp", .ofString "/out/web_bundle.hpp"], 1⟩) := by decide +kernel
  cases hrun : staleSite.run splitting with
  | mk outcome s' =>
    rw [hrun] at hsucceeds
    cases hsucceeds
    obtain ⟨job, hfiles, -, -, -, -, -, hwrote⟩ := run_generated hrun
    have hunlinked : job.Unlinked := job.unlinked_of_linkless (by decide)
    exact ⟨_, s', rfl, rfl, job, hfiles, (hwrote hunlinked).1⟩

end

end AssetEmbed
