/-
  AssetEmbed.Proofs.Run.Rerun — running the same command again.

  A run that has succeeded has left a tree in which it can be done again.  If it
  has written nothing among the assets and nothing where the configuration was
  looked for, then the same assets and the same settings are found, the files
  lead to the places that they led to, and each place receives what it holds.

  Main results:
    * `collected_again`        — the same assets are collected.
    * `run_writes`             — a run of which every part is known.
    * `runsAgain_of_succeeded` — a run that is done again changes nothing.
    * `not_runsAgain`          — runs that cannot be done again.
-/
import AssetEmbed.Proofs.CommandLine.Options
import AssetEmbed.Proofs.Loading.Reload
import AssetEmbed.Proofs.Run.Scanning
import AssetEmbed.Proofs.Run.Scheduling

namespace AssetEmbed

open Machine

/-! ## §1. Collecting again. -/

/-- A source is a file that has been found. -/
theorem Source.of_ofFound? {root : Path} {f : Found} {source : Source}
    (h : Source.ofFound? root f = .ok (some source)) :
    f.isFile = true ∧ source.path = root.descend f.names := by
  unfold Source.ofFound? at h
  split at h
  · next hkind =>
    cases hpath : relativePath root (root.descend f.names) with
    | error e =>
      rw [hpath] at h
      cases h
    | ok stored =>
      rw [hpath] at h
      simp only [Except.map, Except.ok.injEq] at h
      split at h
      · cases h
      · cases h
        exact ⟨decide_eq_true hkind, rfl⟩
  · cases h

theorem exists_of_mem_sourcesOf {root : Path} {found : List Found} {sources : List Source}
    (h : sourcesOf root found = .ok sources) {source : Source} (hm : source ∈ sources) :
    ∃ f ∈ found, f.isFile = true ∧ source.path = root.descend f.names := by
  induction found generalizing sources with
  | nil =>
    cases h
    cases hm
  | cons f rest ih =>
    rw [sourcesOf] at h
    obtain ⟨first, hfirst, h⟩ := bind_eq_ok h
    obtain ⟨others, hrest, h⟩ := bind_eq_ok h
    cases h
    rcases List.mem_append.1 hm with hm | hm
    · rw [Option.mem_toList] at hm
      cases hm
      exact ⟨f, List.mem_cons_self, Source.of_ofFound? hfirst⟩
    · obtain ⟨g, hg, hfile⟩ := ih hrest hm
      exact ⟨g, List.mem_cons_of_mem _ hg, hfile⟩

namespace FileTree

variable {t t' : FileTree} {current place : Location} {root : Path} {sources : List Source}

theorem readFile_of_assetsOf {assets : List Asset} (h : t.assetsOf current sources = .ok assets)
    {source : Source} (hm : source ∈ sources) :
    ∃ content, t.readFile current source.path = .ok content := by
  induction sources generalizing assets with
  | nil => cases hm
  | cons first rest ih =>
    rw [assetsOf] at h
    cases hread : t.readFile current first.path with
    | error e =>
      rw [hread] at h
      cases h
    | ok content =>
      rw [hread] at h
      cases hrest : t.assetsOf current rest with
      | error e =>
        rw [hrest] at h
        cases h
      | ok others =>
        rcases List.mem_cons.1 hm with rfl | hm
        · exact ⟨content, hread⟩
        · exact ih hrest hm

theorem assetsOf_congr (h : ∀ source ∈ sources,
    t'.readFile current source.path = t.readFile current source.path) :
    t'.assetsOf current sources = t.assetsOf current sources := by
  induction sources with
  | nil => rfl
  | cons first rest ih =>
    obtain ⟨hfirst, hrest⟩ := List.forall_mem_cons.1 h
    rw [assetsOf, assetsOf, hfirst, ih hrest]

/-- What is read for a source is a visible file. -/
theorem visible_of_mem_sources (hp : t.resolve .target current root = .ok (.folder place))
    (hd : ∃ d, t.entryAt place = some (.folder d))
    (h : sourcesOf root (t.entriesBelow current root) = .ok sources) {source : Source}
    (hm : source ∈ sources) :
    ∃ names content, names ≠ [] ∧ t.Visible place names content
      ∧ source.path = root.descend (Location.names names) := by
  obtain ⟨f, hf, hfile, hpath⟩ := exists_of_mem_sourcesOf h hm
  have hvisible := (perm_filter_entriesBelow hp hd).mem_iff.1 (List.mem_filter.2 ⟨hf, hfile⟩)
  obtain ⟨⟨names, content⟩, hmem, rfl⟩ := List.mem_map.1 hvisible
  obtain ⟨d, hd⟩ := hd
  have hv := (mem_visibleAt hd).1 hmem
  refine ⟨names, content, ?_, hv, hpath⟩
  -- the directory itself is no file
  rintro rfl
  have hentry := hv.2
  rw [List.append_nil, hd] at hentry
  cases hentry

/-- Where the same files are visible and can be read, the same is collected. -/
theorem collected_again (hp : t.resolve .target current root = .ok (.folder place))
    (hp' : t'.resolve .target current root = .ok (.folder place))
    (hd : ∃ d, t.entryAt place = some (.folder d)) (hd' : ∃ d, t'.entryAt place = some (.folder d))
    (hsame : ∀ names content, t.Visible place names content ↔ t'.Visible place names content)
    {turns turns' : List Turn} {b : Bundle} (h : t.collected current turns root = .ok b) :
    t'.collected current turns' root = .ok b := by
  have hbelow : t.sourcesBelow current root = sourcesOf root (t.entriesBelow current root) := by
    unfold sourcesBelow isDirectory
    rw [hp]
    rfl
  have hbelow' : t'.sourcesBelow current root = sourcesOf root (t.entriesBelow current root) := by
    unfold sourcesBelow isDirectory
    rw [hp', ← sourcesOf_filter root (t'.entriesBelow current root),
      ← filter_entriesBelow_eq hp hp' hd hd' hsame, sourcesOf_filter]
    rfl
  unfold collected at h ⊢
  rw [hbelow] at h
  rw [hbelow']
  obtain ⟨sources, hsources, h⟩ := bind_eq_ok h
  obtain ⟨assets, hread, h⟩ := bind_eq_ok h
  have hassets := readAll_eq_ok_iff.1 hread
  have hassets' : t'.assetsOf current sources = .ok assets := by
    refine (assetsOf_congr fun source hm => ?_).trans hassets
    obtain ⟨content, hread⟩ := readFile_of_assetsOf hassets hm
    obtain ⟨names, content', hne, hv, hpath⟩ := visible_of_mem_sources hp hd hsources hm
    have hfault := fault?_of_readFile hread
    rw [hpath] at hfault ⊢
    -- in both trees the file is read under its names
    rw [readFile_descend hp hne hv.2 hfault,
      readFile_descend hp' hne ((hsame names content').1 hv).2 hfault]
  rw [hsources]
  show t'.bundled current turns' root sources = .ok b
  unfold bundled
  rw [readAll_eq_ok_iff.2 hassets']
  exact h

end FileTree

/-! ## §2. A run of which every part is known. -/

section
variable {s : Machine} {t' : FileTree} {b : Bundle} {st : Settings} {files : List Rendered}

theorem perform_writeRendered_of_writesAll {dir : Path}
    (h : FileTree.WritesAll s.current dir s.files files t') :
    ∃ s', s.perform (writeRendered dir files) = (.ok (files.map (·.path dir)), s')
      ∧ s'.files = t' ∧ s'.current = s.current := by
  generalize hfiles : s.files = t at h
  generalize hcurrent : s.current = current at h ⊢
  induction h generalizing s with
  | nil t => exact ⟨s, rfl, hfiles, hcurrent⟩
  | @cons t between t' r rest hfirst _ ih =>
    subst hfiles hcurrent
    unfold writeRendered
    rw [perform_bind, perform_writeFile]
    have hwrite : s.files.writeFile s.current (dir.join (.ofString r.fileName))
        (Utf8.encode r.content) = .ok between := hfirst
    rw [hwrite]
    dsimp only
    obtain ⟨next, hnext, halike⟩ :=
      (tells_debugMessage "emit" ("wrote " ++ r.fileName)).perform_bind { s with files := between }
    obtain ⟨s', hs', hfiles', hcurrent'⟩ := ih halike.files halike.current
    rw [hnext, perform_bind, hs']
    exact ⟨s', rfl, hfiles', hcurrent'⟩

/-- Files are written into a directory that is there. -/
theorem perform_emit {place : Location} (hrender : render b st = .ok files)
    (hleads : s.files.resolve .target s.current st.outputDir = .ok (.folder place))
    (h : FileTree.WritesAll s.current st.outputDir s.files files t') :
    ∃ s', s.perform (emit b st) = (.ok ⟨files.map (·.path st.outputDir), b.size⟩, s')
      ∧ s'.files = t' ∧ s'.current = s.current := by
  have hperform : s.perform (Failure.ofBundle (.ok files)) = (.ok files, s) := rfl
  unfold emit
  rw [perform_bind, hrender, hperform]
  dsimp only
  rw [perform_bind, perform_makeDirs, FileTree.makeDirs_of_folder hleads]
  dsimp only
  obtain ⟨s', hs', hfiles, hcurrent⟩ := perform_writeRendered_of_writesAll h
  rw [perform_bind, hs']
  exact ⟨s', rfl, hfiles, hcurrent⟩

variable {c : Configuration} {place : Location}

theorem perform_generate {quiet : Bool}
    (hcollect : (s.perform (collectFor c.settings quiet)).1 = .ok b)
    (hrender : render b c.settings = .ok files)
    (hleads : s.files.resolve .target s.current c.settings.outputDir = .ok (.folder place))
    (h : FileTree.WritesAll s.current c.settings.outputDir s.files files t') :
    ∃ s', s.perform (generate c quiet)
        = (.ok ⟨files.map (·.path c.settings.outputDir), b.size⟩, s')
      ∧ s'.files = t' ∧ s'.current = s.current := by
  unfold generate
  dsimp only
  -- up to the first write nothing is changed
  obtain ⟨s₁, hs₁, ha₁⟩ := (tells_debugMessage "bundle" _).perform_bind s
  have hgathers := gathers_collectFor c.settings quiet
  have hanswer := hgathers.answer s s₁ ha₁
  have ha₂ := ha₁.trans (hgathers.twins s₁)
  rw [hs₁, perform_bind]
  cases hcollected : s₁.perform (collectFor c.settings quiet) with
  | mk answer s₂ =>
    rw [hcollect, hcollected] at hanswer
    rw [hcollected] at ha₂
    cases hanswer
    dsimp only
    obtain ⟨s₃, hs₃, ha₃⟩ := Tells.perform_bind (tells_tellCollected b) s₂
    obtain ⟨hfiles, hcurrent⟩ := (ha₂.trans ha₃).toAlike
    rw [← hfiles, ← hcurrent] at hleads h
    obtain ⟨s₄, hs₄, hfiles₄, hcurrent₄⟩ := perform_emit hrender hleads h
    rw [hs₃, perform_bind, perform_during, hs₄]
    obtain ⟨s₅, hs₅, ha₅⟩ := tells_written c b ⟨files.map (·.path c.settings.outputDir), b.size⟩ s₄
    exact ⟨s₅, hs₅, ha₅.files.trans hfiles₄, (ha₅.current.trans hcurrent₄).trans hcurrent⟩

/-- What a run does once it is known what it loads and collects, and what can be
written. -/
theorem run_writes {inv : CommandLine.Invocation} (hcommand : inv.command = .bundle)
    (hload : (s.perform (Configuration.load inv)).1 = .ok c)
    (hcollect : (s.perform (collectFor c.settings inv.quiet)).1 = .ok b)
    (hrender : render b c.settings = .ok files)
    (hleads : s.files.resolve .target s.current c.settings.outputDir = .ok (.folder place))
    (h : FileTree.WritesAll s.current c.settings.outputDir s.files files t') :
    ∃ s', s.run inv = (.ok (.generated ⟨files.map (·.path c.settings.outputDir), b.size⟩), s')
      ∧ s'.files = t' ∧ s'.current = s.current := by
  have htwins := (Configuration.looks_load inv).twins s
  unfold Machine.run runProgram
  rw [perform_bind]
  cases hs₁ : s.perform (Configuration.load inv) with
  | mk answer s₁ =>
    rw [hs₁] at hload htwins
    cases hload
    dsimp only
    rw [hcommand]
    rw [(gathers_collectFor c.settings inv.quiet).answer s s₁ htwins] at hcollect
    obtain ⟨hfiles, hcurrent⟩ := htwins.toAlike
    rw [← hfiles, ← hcurrent] at hleads h
    obtain ⟨s', hs', hfiles', hcurrent'⟩ := perform_generate hcollect hrender hleads h
    rw [perform_bind, hs']
    exact ⟨s', rfl, hfiles', hcurrent'.trans hcurrent⟩

end

/-! ## §3. Running again. -/

section
variable {inv : CommandLine.Invocation} {s s' : Machine} {report : Report} {c : Configuration}
  {web : Location}

/-- Only a bundle is generated. -/
theorem command_of_generated (h : s.run inv = (.ok (.generated report), s')) :
    inv.command = .bundle := by
  cases hcommand : inv.command with
  | bundle => rfl
  | list queries json =>
    unfold Machine.run runProgram at h
    rw [hcommand] at h
    obtain ⟨c, s₁, -, h⟩ := perform_bind_eq_ok h
    obtain ⟨listed, s₂, -, h⟩ := perform_bind_eq_ok h
    cases h

/-- Whether a run has written no file at a place or below it. -/
def Report.Outside (report : Report) (s : Machine) (web : Location) : Prop :=
  ∀ p ∈ report.files, ∀ place, s.files.fileAt? s.current p = some place → ¬ web <+: place

/-- Whether the canonical path that an output directory has got can be used in its
place: it does not lie at or below the assets, and no file in it gets too long a
path. -/
def Report.Usable (report : Report) (s : Machine) (web : Location) (outputDir : Path) : Prop :=
  ∀ q, s.files.canonical? s.current outputDir = some q →
    q.startsWith (Location.path web) = false
      ∧ ∀ p ∈ report.files, ∀ name, p.fileName? = some name →
        (q.join ⟨name⟩).bytes.length < pathLimit

/-- The places of files that have been written are those that were written to. -/
theorem FileTree.Receives.places {t : FileTree} {current : Location} {dir : Path}
    {files : List Rendered} {writes : List (Location × List UInt8)}
    (h : t.Receives current dir files writes) :
    (files.map (·.path dir)).map (t.fileAt? current) = writes.map fun write => some write.1 := by
  induction h with
  | nil => rfl
  | cons hr _ ih => rw [List.map_cons, List.map_cons, List.map_cons, ih, hr.1.fileAt?_eq]

/-- The files of a directory are also found by its canonical path. -/
theorem FileTree.Receives.canonical {t : FileTree} {current landing : Location} {dir : Path}
    {files : List Rendered} {writes : List (Location × List UInt8)}
    (h : t.Receives current dir files writes) (hp : dir.isAbsolute = true)
    (hd : t.resolve .target current dir = .ok (.folder landing))
    (hplain : ∀ r ∈ files, Name.Plain (Utf8.encode r.fileName))
    (hlength : ∀ r ∈ files, (r.path (Location.path landing)).bytes.length < pathLimit) :
    t.Receives current (Location.path landing) files writes := by
  induction h with
  | nil => exact .nil
  | cons hr _ ih =>
    obtain ⟨hplain, hplains⟩ := List.forall_mem_cons.1 hplain
    obtain ⟨hlength, hlengths⟩ := List.forall_mem_cons.1 hlength
    exact .cons ⟨hr.1.canonical hplain hp hd hlength, hr.2⟩ (ih hplains hlengths)

theorem collectFor_eq_ok_iff {st : Settings} {quiet : Bool} {b : Bundle} :
    (s.perform (collectFor st quiet)).1 = .ok b
      ↔ s.files.collected s.current s.turns st.webDir = .ok b := by
  unfold collectFor
  rw [perform_during, perform_collect]
  cases s.files.collected s.current s.turns st.webDir <;> simp [Except.mapError]

/-- What a run has loaded, and where its assets are. -/
theorem loaded_of_generated
    (h : s.run inv = (.ok (.generated report), s')) :
    ∃ c web, (s.perform (Configuration.load inv)).1 = .ok c
      ∧ s.files.resolve .target s.current c.settings.webDir = .ok (.folder web) := by
  have hcourse := course_run inv s
  rw [h] at hcourse
  cases hcourse with
  | looked _ unwritten _ => exact absurd rfl (unwritten report)
  | finished job ready current writes =>
    refine ⟨job.config, ?_⟩
    have hcollects := collectFor_eq_ok_iff.1 job.collects
    unfold FileTree.collected FileTree.sourcesBelow FileTree.isDirectory at hcollects
    cases hplace : s.files.resolve .target s.current job.config.settings.webDir with
    | error e =>
      rw [hplace] at hcollects
      cases hcollects
    | ok place =>
      rw [hplace] at hcollects
      cases place with
      | folder web => exact ⟨web, job.loads, rfl⟩
      | file | link | vacant => cases hcollects

theorem isAbsolute_webDir (h : (s.perform (Configuration.load inv)).1 = .ok c) :
    c.settings.webDir.isAbsolute = true := by
  obtain ⟨c', -, -, rfl⟩ := Configuration.load_eq_ok_iff.1 h
  exact Configuration.isAbsolute_normalized _ _

/-- What has not been written to among the assets is visible as it was. -/
theorem visible_again {t t' : FileTree} {slots : List (Location × List UInt8)}
    (hcontents : t'.contentAt = overwritten slots t.contentAt)
    (houtside : ∀ slot ∈ slots, ¬ web <+: slot.1) (names : Location) (content : List UInt8) :
    t.Visible web names content ↔ t'.Visible web names content := by
  have hplace : web ++ names ∉ slots.map Prod.fst := by
    intro hm
    obtain ⟨slot, hslot, hsame⟩ := List.mem_map.1 hm
    exact houtside slot hslot (hsame ▸ List.prefix_append web names)
  unfold FileTree.Visible
  rw [← FileTree.contentAt_eq_some, ← FileTree.contentAt_eq_some, hcontents,
    overwritten_of_notMem hplace]

/-- The places of files outside the assets are outside. -/
theorem Report.Outside.slots {files : List Rendered} {slots : List (Location × List UInt8)}
    {dir : Path} (h : report.Outside s' web) (hfiles : report.files = files.map (·.path dir))
    (hreceives : s'.files.Receives s'.current dir files slots) :
    ∀ slot ∈ slots, ¬ web <+: slot.1 := by
  intro slot hslot
  have hplaces := hreceives.places
  rw [← hfiles] at hplaces
  have hmem : some slot.1 ∈ report.files.map (s'.files.fileAt? s'.current) := by
    rw [hplaces]
    exact List.mem_map_of_mem (f := fun write => some write.1) hslot
  obtain ⟨p, hp, hplace⟩ := List.mem_map.1 hmem
  exact h p hp slot.1 hplace

/-- Where nothing has been written among the assets the same is collected. -/
theorem collected_outside {root : Path} {slots : List (Location × List UInt8)} {b : Bundle}
    (hp : root.isAbsolute = true) (he : Evolves s.files.entryAt s'.files.entryAt)
    (hcurrent : s'.current = s.current)
    (hcontents : s'.files.contentAt = overwritten slots s.files.contentAt)
    (houtside : ∀ slot ∈ slots, ¬ web <+: slot.1)
    (hweb : s.files.resolve .target s.current root = .ok (.folder web)) {turns turns' : List Turn}
    (h : s.files.collected s.current turns root = .ok b) :
    s'.files.collected s'.current turns' root = .ok b := by
  obtain ⟨d, hd⟩ := FileTree.exists_folder_of_solid (FileTree.resolve_holds hp hweb)
  rw [hcurrent]
  exact FileTree.collected_again hweb (FileTree.resolve_keeps he.toKeeps hweb) ⟨d, hd⟩
    (he.folder hd) (visible_again hcontents houtside) h

/-- The last component of the path of a file is its name. -/
theorem Job.fileName?_path (job : Job inv s) {r : Rendered} (hr : r ∈ job.files) :
    (job.path r).fileName? = some (Utf8.encode r.fileName) := by
  have hcomponents : (job.path r).components = _ :=
    Path.components_child job.isAbsolute_outputDir (job.plain_of_mem_files hr)
  unfold Path.fileName?
  rw [hcomponents, List.getLast?_concat]

/-- However the output directory is spelled, its files lead to where they have
been written. -/
theorem Job.receives_again (job : Job inv s) {outputDir : Path}
    {slots : List (Location × List UInt8)}
    (hleads : s'.files.resolve .target s'.current job.config.settings.outputDir
      = .ok (.folder job.place))
    (hreceives : s'.files.Receives s'.current job.config.settings.outputDir job.files slots)
    (husable : Report.Usable ⟨job.files.map job.path, job.bundle.size⟩ s' web
      job.config.settings.outputDir)
    (houtput : outputDir = job.config.settings.outputDir
      ∨ s'.files.canonical? s'.current job.config.settings.outputDir = some outputDir
        ∧ outputDir = Location.path job.place
        ∧ (Location.path job.place).bytes.length < pathLimit) :
    outputDir.isAbsolute = true
      ∧ s'.files.resolve .target s'.current outputDir = .ok (.folder job.place)
      ∧ s'.files.Receives s'.current outputDir job.files slots := by
  have habsolute := job.isAbsolute_outputDir
  rcases houtput with rfl | ⟨hcanonical, rfl, hlength⟩
  · exact ⟨habsolute, hleads, hreceives⟩
  · have hsolid : Solid s'.files.entryAt job.place := FileTree.resolve_holds habsolute hleads
    refine ⟨Location.isAbsolute_path _, FileTree.resolve_path hsolid hlength, ?_⟩
    refine hreceives.canonical habsolute hleads (fun r hr => job.plain_of_mem_files hr) ?_
    intro r hr
    exact (husable _ hcanonical).2 _ (List.mem_map_of_mem hr) _ (job.fileName?_path hr)

/-- A run that has succeeded, what it has loaded and where its assets are, as
every such run has (`loaded_of_generated`); it has written nothing among them. -/
structure Machine.Succeeded (s : Machine) (inv : CommandLine.Invocation) (s' : Machine)
    (report : Report) (c : Configuration) (web : Location) : Prop where
  run : s.run inv = (.ok (.generated report), s')
  directory : ∃ d, s.files.entryAt s.current = some (.folder d)
  loads : (s.perform (Configuration.load inv)).1 = .ok c
  assets : s.files.resolve .target s.current c.settings.webDir = .ok (.folder web)
  outside : report.Outside s' web

/-- Whether a run that has ended with a report can be done again and changes
nothing: with its threads in any turns it succeeds and reports as many assets, its
files are at the same places, and all files hold what they held. -/
def Machine.RunsAgain (s : Machine) (inv : CommandLine.Invocation) (report : Report) : Prop :=
  ∀ turns, ∃ report' s',
    ((Machine.start s.files s.current).scheduled turns).run inv = (.ok (.generated report'), s')
    ∧ report'.assets = report.assets
    ∧ (∀ p ∈ report.files, (s.files.fileAt? s.current p).isSome = true)
    ∧ report'.files.map (s'.files.fileAt? s'.current)
      = report.files.map (s.files.fileAt? s.current)
    ∧ ∀ place, s'.files.contentAt place = s.files.contentAt place

/-- A run that has written nothing among the assets and nothing where the
configuration was looked for can be done again, unless the output directory has
got a canonical path that cannot be used. -/
theorem runsAgain_of_succeeded (h : s.Succeeded inv s' report c web)
    (hkept : Configuration.Kept inv s s') (husable : report.Usable s' web c.settings.outputDir) :
    s'.RunsAgain inv report := by
  intro turns
  have hcommand := command_of_generated h.run
  have hcourse := course_run inv s
  rw [h.run] at hcourse
  cases hcourse with
  | looked _ unwritten _ => exact absurd rfl (unwritten report)
  | @finished job made ready _ current writes =>
    have hconfig : job.config = c := Except.ok.inj (job.loads.symm.trans h.loads)
    subst hconfig
    have habsolute := job.isAbsolute_outputDir
    obtain ⟨hevolves, slots, hreceives, hcontents⟩ := writes.received habsolute
    have hleads := FileTree.resolve_keeps hevolves.toKeeps ready.leads
    rw [← current] at hreceives hleads
    -- the same configuration is loaded, but for the spelling of the output directory
    have hkept' : Configuration.Kept inv s ((Machine.start s'.files s'.current).scheduled turns) :=
      hkept
    obtain ⟨c', outputDir, hload, hsettings, houtput⟩ := Configuration.load_again h.loads hkept'
      current h.directory h.assets ready.grown hevolves ready.leads
      fun q hq => (husable q (current ▸ hq)).1
    rw [← current] at houtput
    -- the same assets are collected, and the same files are made of them
    have hcollect : (((Machine.start s'.files s'.current).scheduled turns).perform
        (collectFor c'.settings inv.quiet)).1 = .ok job.bundle := by
      have hmade : made.contentAt = s.files.contentAt :=
        funext fun place => FileTree.contentAt_of_grows (ready.grown place)
      rw [collectFor_eq_ok_iff, hsettings]
      exact collected_outside (isAbsolute_webDir h.loads) (ready.grown.evolves.trans hevolves)
        current (hmade ▸ hcontents) (h.outside.slots rfl hreceives) h.assets
        (collectFor_eq_ok_iff.1 job.collects)
    have hrender : render job.bundle c'.settings = .ok job.files := by
      rw [hsettings, ← job.renders]
      exact (render_eq_of_assets rfl job.config.settings _ outputDir).symm
    -- each of them is written to where it is
    obtain ⟨habsolute', hleads', hreceives'⟩ :=
      job.receives_again hleads hreceives husable houtput
    obtain ⟨t'', hwrites, hevolves', hcontents'⟩ := hreceives'.writesAll habsolute'
    have houtputDir : c'.settings.outputDir = outputDir := by rw [hsettings]
    rw [← houtputDir] at hleads' hwrites
    obtain ⟨s'', hrun, hfiles, hstays⟩ := run_writes
      (s := (Machine.start s'.files s'.current).scheduled turns) hcommand hload hcollect hrender
      hleads' hwrites
    change s''.current = s'.current at hstays
    have hplaces : (job.files.map job.path).map (s'.files.fileAt? s'.current) = _ :=
      hreceives.places
    refine ⟨_, s'', hrun, rfl, fun p hp => ?_, ?_, fun place => ?_⟩
    · have hmem := List.mem_map_of_mem (f := s'.files.fileAt? s'.current) hp
      rw [hplaces] at hmem
      obtain ⟨slot, -, hslot⟩ := List.mem_map.1 hmem
      rw [← hslot]
      rfl
    · rw [hfiles, hstays, houtputDir]
      exact (hreceives'.evolves hevolves').places.trans hplaces.symm
    · rw [hfiles, hcontents', hcontents, overwritten_twice]

end

/-! ## §4. Sites. -/

section
open AssetEmbed.Configuration (webName outName writingTo)

/-- What is loaded at the top of a tree when an output directory is given. -/
def loaded (outputDir : Path) : Configuration where
  file := none
  root := .ofString "/"
  settings := { Settings.default with webDir := .ofString "/web", outputDir }

/-- A run that has written one file has succeeded. -/
theorem succeeded_of_outcome {s : Machine} {inv : CommandLine.Invocation} {c : Configuration}
    {web : Location} (p : Path) (assets : Nat) (place : Location)
    (hdirectory : ∃ d, s.files.entryAt s.current = some (.folder d))
    (hloads : (s.perform (Configuration.load inv)).1 = .ok c)
    (hassets : s.files.resolve .target s.current c.settings.webDir = .ok (.folder web))
    (hrun : (s.run inv).1 = .ok (.generated ⟨[p], assets⟩)
      ∧ (s.run inv).2.files.fileAt? (s.run inv).2.current p = some place)
    (hplace : ¬ web <+: place) : s.Succeeded inv (s.run inv).2 ⟨[p], assets⟩ c web where
  run := Prod.ext hrun.1 rfl
  directory := hdirectory
  loads := hloads
  assets := hassets
  outside := by
    intro q hq other hother
    rw [List.mem_singleton.1 hq, hrun.2] at hother
    cases hother
    exact hplace

/-- The name of a directory for generated files. -/
def generatedName : EntryName := ⟨Utf8.encode "gen", by decide⟩

/-- A machine that stands at the top of a tree with a script in `web`. -/
def scriptMachine : Machine := .start scriptSite []

/-- A run is done again when its output directory, which is spelled otherwise
then, is new. -/
theorem runsAgain_scriptMachine : ∃ report s',
    scriptMachine.run (writingTo (.ofString "out/../gen")) = (.ok (.generated report), s')
      ∧ report.files = [.ofString "/out/../gen/web_bundle.hpp"]
      ∧ s'.RunsAgain (writingTo (.ofString "out/../gen")) report := by
  have h : scriptMachine.Succeeded (writingTo (.ofString "out/../gen"))
      (scriptMachine.run (writingTo (.ofString "out/../gen"))).2
      ⟨[.ofString "/out/../gen/web_bundle.hpp"], 1⟩ (loaded (.ofString "/out/../gen")) [webName] :=
    succeeded_of_outcome _ _ [generatedName, defaultIndex] ⟨_, rfl⟩ (by decide +kernel)
      (by decide +kernel) (by decide +kernel) (by decide)
  have hkept : Configuration.Kept (writingTo (.ofString "out/../gen")) scriptMachine
      (scriptMachine.run (writingTo (.ofString "out/../gen"))).2 := by
    unfold Configuration.Kept
    decide +kernel
  have hcanonical : (scriptMachine.run (writingTo (.ofString "out/../gen"))).2.files.canonical?
      (scriptMachine.run (writingTo (.ofString "out/../gen"))).2.current
      (.ofString "/out/../gen") = some (.ofString "/gen") := by decide +kernel
  refine ⟨_, _, h.run, rfl, runsAgain_of_succeeded h hkept fun q hq => ?_⟩
  have hq' : some (Path.ofString "/gen") = some q := hcanonical.symm.trans hq
  cases hq'
  refine ⟨by decide +kernel, fun p hp name hname => ?_⟩
  rw [List.mem_singleton.1 hp] at hname
  have hname' : some (Utf8.encode "web_bundle.hpp") = some name := hname
  cases hname'
  decide +kernel

/-! ## §5. Runs that cannot be done again. -/

/-- A byte of ASCII stands for itself. -/
theorem Utf8.toNat_of_head_encode {b : UInt8} (hb : b.toNat < 128) {c : Char}
    (h : (String.utf8EncodeChar c).head? = some b) : c.toNat = b.toNat := by
  have hvalue : c.val.toNat = c.toNat := rfl
  unfold String.utf8EncodeChar at h
  simp only [hvalue] at h
  repeat' split at h
  all_goals
    cases h
    simp only [UInt8.toNat_ofNat'] at hb ⊢
    omega

/-- What begins with a slash is no configuration. -/
theorem Configuration.decode_slash (p : Path) (rest : List UInt8) :
    ∃ cause, decode p (Path.slash :: rest) = .error cause := by
  unfold decode
  cases hdecode : Utf8.decode? (Path.slash :: rest) with
  | none => exact ⟨_, rfl⟩
  | some text =>
    obtain ⟨cs, hcs⟩ : ∃ cs, text.toList = '/' :: cs := by
      have hbytes := Utf8.encode_of_decode? hdecode
      rw [Utf8.encode_eq_flatMap] at hbytes
      cases hchars : text.toList with
      | nil => simp [hchars] at hbytes
      | cons c cs =>
        rw [hchars, List.flatMap_cons] at hbytes
        have hhead : (String.utf8EncodeChar c).head? = some Path.slash := by
          have hhead := congrArg List.head? hbytes
          rwa [List.head?_append_of_ne_nil _ (by simp)] at hhead
        have hc := Utf8.toNat_of_head_encode (by decide) hhead
        exact ⟨cs, by rw [Char.toNat_inj.1 (hc.trans (show _ = '/'.toNat from rfl))]⟩
    have hparse : Toml.parse text = none := by
      unfold Toml.parse
      rw [hcs]
      rfl
    dsimp only
    rw [hparse]
    exact ⟨_, rfl⟩

theorem Configuration.not_loaded_of_slash {inv : CommandLine.Invocation} {s : Machine} {p : Path}
    {rest : List UInt8} (hfound : located inv s = some p)
    (hread : s.files.readFile s.current p = .ok (Path.slash :: rest)) (c : Configuration) :
    (s.perform (load inv)).1 ≠ .ok c := by
  intro h
  obtain ⟨c', hgather, -⟩ := load_eq_ok_iff.1 h
  obtain ⟨cause, hdecode⟩ := decode_slash p rest
  rw [perform_gather, hfound, if_neg (by simp)] at hgather
  unfold documentAt at hgather
  dsimp only at hgather
  rw [hread] at hgather
  dsimp only at hgather
  rw [hdecode] at hgather
  cases hgather

theorem not_runsAgain_of_fails {s : Machine} {inv : CommandLine.Invocation} {report : Report}
    (h : ((Machine.start s.files s.current).run inv).1.isOk = false) :
    ¬ s.RunsAgain inv report := by
  intro hagain
  obtain ⟨report', s', hrun, -⟩ := hagain []
  have hrun' : (Machine.start s.files s.current).run inv = _ := hrun
  rw [hrun'] at h
  cases h

/-- A file that begins with a slash, as all generated ones do, keeps a run from
being done again if it is taken for the configuration. -/
theorem not_runsAgain_of_slash {s : Machine} {inv : CommandLine.Invocation}
    {report : Report} {p : Path}
    (h : Configuration.located inv (.start s.files s.current) = some p
      ∧ (s.files.readFile s.current p).toOption.bind List.head? = some Path.slash) :
    ¬ s.RunsAgain inv report := by
  intro hagain
  obtain ⟨report', s', hrun, -⟩ := hagain []
  obtain ⟨hfound, hhead⟩ := h
  obtain ⟨c, -, hloads, -⟩ := loaded_of_generated hrun
  cases hread : s.files.readFile s.current p with
  | error e =>
    rw [hread] at hhead
    cases hhead
  | ok bytes =>
    rw [hread] at hhead
    obtain ⟨rest, rfl⟩ := List.head?_eq_some_iff.1 hhead
    exact Configuration.not_loaded_of_slash hfound hread c hloads

/-- The name of a file outside all directories. -/
def outerName : EntryName := ⟨Utf8.encode "outer.hpp", by decide⟩

/-- A machine on which the index file is a link that leads out of the assets. -/
def linkedSite : Machine :=
  .start (scriptSite.putLink [webName] defaultIndex (.ofString "../outer.hpp")) []

/-- A machine on which the configuration file is a link to where the index file
will be. -/
def expectantSite : Machine :=
  .start (scriptSite.putLink [] ⟨Utf8.encode "webembed.toml", by decide⟩
    (.ofString "out/web_bundle.hpp")) []

/-- A name that is nearly as long as a name can be. -/
def longName : EntryName := ⟨List.replicate 254 0x61, by decide +kernel⟩

/-- The name of a link. -/
def shortName : EntryName := ⟨Utf8.encode "s", by decide⟩

/-- Directories in one another, all of a long name. -/
def nested : Nat → Directory
  | 0 => .empty
  | depth + 1 => .folder longName (nested depth) .empty

theorem distinct_nested (depth : Nat) : (nested depth).Distinct := by
  induction depth with
  | zero => trivial
  | succ depth ih => exact ⟨rfl, ih, trivial⟩

/-- The path of the innermost of so many directories. -/
def nestedPath (depth : Nat) : Path := ⟨Path.joinSlash (List.replicate depth longName.bytes)⟩

/-- A machine with a link to a directory of a path that is nearly as long as a
path can be. -/
def deepSite : Machine :=
  .start ((scriptSite.put [] longName (.folder (nested 15)) (distinct_nested 15)).putLink []
    shortName (nestedPath 16)) []

/-- A run that has succeeded cannot always be done again, though it has written
nothing among the assets.  An output directory that was new may have a canonical
path that seems to lie among them, or one that is too long for its files; and
where no configuration was found the run may have left one. -/
theorem not_runsAgain :
    (∃ s' report c, linkedSite.Succeeded (writingTo (.ofString "new/../web")) s' report c [webName]
      ∧ Configuration.Kept (writingTo (.ofString "new/../web")) linkedSite s'
      ∧ ¬ s'.RunsAgain (writingTo (.ofString "new/../web")) report)
    ∧ (∃ s' report c, deepSite.Succeeded (writingTo (.ofString "s/out")) s' report c [webName]
      ∧ Configuration.Kept (writingTo (.ofString "s/out")) deepSite s'
      ∧ ¬ s'.RunsAgain (writingTo (.ofString "s/out")) report)
    ∧ ∃ s' report c, expectantSite.Succeeded (writingTo (.ofString "out")) s' report c [webName]
      ∧ Configuration.located (writingTo (.ofString "out")) expectantSite = none
      ∧ ¬ s'.RunsAgain (writingTo (.ofString "out")) report := by
  refine ⟨?_, ?_, ?_⟩
  · refine ⟨_, _, loaded (.ofString "/new/../web"), succeeded_of_outcome
      (.ofString "/new/../web/web_bundle.hpp") 1 [outerName] ⟨_, rfl⟩
      (by decide +kernel) (by decide +kernel) (by decide +kernel) (by decide), ?_,
      not_runsAgain_of_fails (by decide +kernel)⟩
    unfold Configuration.Kept
    decide +kernel
  · refine ⟨_, _, loaded (.ofString "/s/out"), succeeded_of_outcome
      (.ofString "/s/out/web_bundle.hpp") 1
      (List.replicate 16 longName ++ [outName, defaultIndex]) ⟨_, rfl⟩
      (by decide +kernel) (by decide +kernel) (by decide +kernel) (by decide +kernel), ?_,
      not_runsAgain_of_fails (by decide +kernel)⟩
    unfold Configuration.Kept
    decide +kernel
  · exact ⟨_, _, loaded (.ofString "/out"), succeeded_of_outcome
      (.ofString "/out/web_bundle.hpp") 1 [outName, defaultIndex] ⟨_, rfl⟩
      (by decide +kernel) (by decide +kernel) (by decide +kernel) (by decide), by decide +kernel,
      not_runsAgain_of_slash (p := .ofString "/webembed.toml") (by decide +kernel)⟩

end

end AssetEmbed
