/-
  AssetEmbed.Proofs.Run.Scanning — which files are embedded.

  The assets of a run are the visible files below the asset root, each with its
  names and its bytes.  In what order a walk comes to them makes no difference,
  nor does anything else that is there: hidden files, links and directories
  without files.

  Main results:
    * `readFile_descend` — a visible file is read where its names lead.
    * `collect_assets`   — collecting finds the visible files in any order.
    * `collect_exact`    — a bundle holds the visible files and nothing else.
-/
import AssetEmbed.Proofs.Bundling
import AssetEmbed.Proofs.Loading.OutputCheck
import AssetEmbed.Proofs.Run.Collecting
import AssetEmbed.Proofs.Run.StoredPath

namespace AssetEmbed

open Machine

/-! ## §1. Sources. -/

/-- What is read for a file that a walk comes to. -/
def sourceOf (root : Path) (f : Found) : Source := ⟨root.descend f.names, storedPath f.names⟩

/-- Only the files among what a walk comes to count. -/
theorem sourcesOf_filter (root : Path) (found : List Found) :
    sourcesOf root (found.filter Found.isFile) = sourcesOf root found := by
  induction found with
  | nil => rfl
  | cons f rest ih =>
    rw [List.filter_cons, sourcesOf]
    cases hfile : f.isFile with
    | true =>
      rw [if_pos rfl, sourcesOf, ih]
    | false =>
      have hkind : ¬ f.kind = .file := by simpa [Found.isFile] using hfile
      have hnone : Source.ofFound? root f = .ok none := if_neg hkind
      rw [if_neg Bool.false_ne_true, ih, hnone]
      cases sourcesOf root rest <;> rfl

/-- Whether a walk has come to a visible file whose names are text. -/
def Found.Visible (f : Found) : Prop :=
  ∃ names : Location, f = ofNames names ∧ names ≠ [] ∧ AreText names ∧ Directory.Plain names

theorem sourcesOf_eq {root : Path} (h : root.bytes ≠ []) {found : List Found}
    (hfound : ∀ f ∈ found, f.Visible) : sourcesOf root found = .ok (found.map (sourceOf root)) := by
  induction found with
  | nil => rfl
  | cons f rest ih =>
    obtain ⟨hfirst, hrest⟩ := List.forall_mem_cons.1 hfound
    obtain ⟨names, rfl, hne, htext, hplain⟩ := hfirst
    have hsource : Source.ofFound? root (Found.ofNames names)
        = .ok (some (sourceOf root (Found.ofNames names))) := by
      have hkind : (Found.ofNames names).kind = .file := rfl
      unfold Source.ofFound?
      rw [if_pos hkind]
      show (relativePath root (root.descend names.names)).map _ = _
      rw [relativePath_descend h htext]
      simp only [Except.map, isHiddenPath_storedPath hne htext hplain, Bool.false_eq_true, if_false]
      rfl
    rw [sourcesOf, hsource, ih hrest]
    rfl

/-! ## §2. Reading. -/

namespace FileTree

variable {t : FileTree} {current place : Location} {root : Path} {names : Location}
  {content : List UInt8}

theorem fault?_of_readFile {p : Path} (h : t.readFile current p = .ok content) :
    p.fault? = none := by
  unfold readFile at h
  split at h
  · next hr => exact fault?_of_resolve hr
  all_goals cases h

/-- What is below a directory is read at the path of its names. -/
theorem readFile_descend (hroot : t.resolve .target current root = .ok (.folder place))
    (hne : names ≠ []) (hfile : t.entryAt (place ++ names) = some (.file content))
    (hfault : (root.descend names.names).fault? = none) :
    t.readFile current (root.descend names.names) = .ok content := by
  induction names generalizing root place with
  | nil => exact absurd rfl hne
  | cons name rest ih =>
    have hstep := step_of_name (rfl : name.bytes = name.bytes)
    have hroot' : root.bytes ≠ [] := ne_nil_of_resolve hroot
    cases rest with
    | nil =>
      exact readFile_child hroot name.plain hfault (Location.child?_eq_some.2 ⟨name, rfl, rfl⟩)
        (contentAt_eq_some.2 hfile)
    | cons next others =>
      have hbelow : t.entryAt (place ++ [name] ++ next :: others) = some (.file content) := by
        rw [List.append_assoc]
        exact hfile
      obtain ⟨inner, hinner⟩ : ∃ inner, t.entryAt (place ++ [name]) = some (.folder inner) :=
        Directory.folder_of_entryAt (List.cons_ne_nil _ _) hbelow
      have hunlinked : ∀ target, t.entryAt (place ++ [name]) ≠ some (.link target) := by
        intro target
        rw [hinner]
        simp
      -- the path of the directory is a part of that of the file
      have hfault' : (root.join ⟨name.bytes⟩).fault? = none :=
        Path.fault?_of_prefix (Path.join_ne_nil hroot' name) (Path.prefix_descend _ _) hfault
      have hresolve : t.resolve .target current (root.join ⟨name.bytes⟩) = _ :=
        resolve_child hroot name.plain hstep (walk_name hunlinked) hfault'
      rw [Place.below, hinner] at hresolve
      exact ih hresolve (List.cons_ne_nil _ _) hbelow hfault

end FileTree

/-- What a visible file is embedded as. -/
def Asset.ofFile (file : Location × List UInt8) : Asset := ⟨storedPath file.1.names, file.2⟩

/-- What something that a walk comes to is embedded as. -/
def FileTree.assetAt (t : FileTree) (current : Location) (root : Path) (f : Found) : Asset :=
  ⟨storedPath f.names, (t.readFile current (root.descend f.names)).toOption.getD []⟩

theorem FileTree.assetsOf_eq {t : FileTree} {current : Location} {root : Path} {found : List Found}
    (h : ∀ f ∈ found, (t.readFile current (root.descend f.names)).isOk = true) :
    t.assetsOf current (found.map (sourceOf root)) = .ok (found.map (t.assetAt current root)) := by
  induction found with
  | nil => rfl
  | cons f rest ih =>
    obtain ⟨hf, hrest⟩ := List.forall_mem_cons.1 h
    rw [List.map_cons, List.map_cons, assetsOf, ih hrest]
    unfold assetAt sourceOf
    cases hread : t.readFile current (root.descend f.names) with
    | error e => simp [hread, Except.isOk, Except.toBool] at hf
    | ok bytes => rfl

/-! ## §3. Sorting and rendering. -/

/-- Sorting what files are embedded as is sorting the files. -/
theorem sortBy_map {α β : Type} (f : α → β) (le : β → β → Bool) (xs : List α) :
    Order.sortBy le (xs.map f) = (Order.sortBy (fun a b => le (f a) (f b)) xs).map f := by
  have hinsert (x : α) (ys : List α) : Order.insertBy le (f x) (ys.map f)
      = (Order.insertBy (fun a b => le (f a) (f b)) x ys).map f := by
    induction ys with
    | nil => rfl
    | cons y rest ih =>
      rw [List.map_cons, Order.insertBy, Order.insertBy, ih]
      split <;> rfl
  induction xs with
  | nil => rfl
  | cons x rest ih =>
    rw [List.map_cons, Order.sortBy, Order.sortBy, ih, hinsert]

/-- Only what a bundle holds is written out. -/
theorem render_eq_of_assets {b b' : Bundle} (h : b.assets = b'.assets) (st : Settings)
    (webDir outputDir : Path) : render b st = render b' { st with webDir, outputDir } := by
  cases b
  cases b'
  cases h
  rfl

/-! ## §4. Collecting in any order. -/

/-- A machine on which walks come to things in another order. -/
@[reducible] def Machine.reordered (order : List Found → List Found) : Host (StateM Machine) :=
  { (inferInstance : Host (StateM Machine)) with
    entriesBelow := fun p => ask fun files current => order (files.entriesBelow current p) }

/-- Collecting on a machine on which walks come to things in another order. -/
def collectIn (order : List Found → List Found) (root : Path) (quiet : Bool) :
    ExceptT Failure (StateM Machine) Bundle :=
  @collect (StateM Machine) _ (Machine.reordered order) root quiet

/-- Whether a function puts lists in another order. -/
def Reorders (order : List Found → List Found) : Prop := ∀ found, (order found).Perm found

/-- What is left to read is read without a walk. -/
theorem finishAll_reordered (order : List Found → List Found) (shown : Bool) (total : Nat)
    (tasks : List (Source × Stage)) (tally : Tally) :
    @finishAll _ _ (@Host.exceptT _ Failure _ (Machine.reordered order)) shown total tasks tally
      = finishAll shown total tasks tally := by
  induction tasks generalizing tally with
  | nil => rfl
  | cons task rest ih =>
    unfold finishAll
    simp only [ih]
    rfl

/-- Reading does not go through a walk. -/
theorem readSources_reordered (order : List Found → List Found) (shown : Bool)
    (sources : List Source) :
    @readSources (StateM Machine) _ (Machine.reordered order) shown sources
      = readSources shown sources := by
  unfold readSources readInTurns
  simp only [finishAll_reordered]
  rfl

theorem perform_collectIn (order : List Found → List Found) {root : Path} (quiet : Bool)
    {s : Machine} (h : s.files.isDirectory s.current root = true) :
    (s.perform (collectIn order root quiet)).1
      = ((sourcesOf root (order (s.files.entriesBelow s.current root))).bind
          (s.files.bundled s.current s.turns root)).mapError BundleError.failure := by
  have hscan : s.perform (@scanSources (StateM Machine) _ (Machine.reordered order) root)
      = ((sourcesOf root (order (s.files.entriesBelow s.current root))).mapError
          BundleError.failure, s) := by
    have hdirectory : s.perform (Host.isDirectory root) = (.ok true, s) := by
      rw [← h]
      rfl
    have hentries : s.perform (ExceptT.lift (ask fun files current =>
        order (files.entriesBelow current root)))
        = (.ok (order (s.files.entriesBelow s.current root)), s) := rfl
    unfold scanSources
    show s.perform (Host.isDirectory root >>= fun found => _) = _
    rw [perform_bind, hdirectory]
    show s.perform (ExceptT.lift (ask fun files current =>
      order (files.entriesBelow current root)) >>= fun found =>
        Failure.ofBundle (sourcesOf root found)) = _
    rw [perform_bind, hentries]
    exact perform_ofBundle _ s
  have hcollect : collectIn order root quiet
      = @scanSources (StateM Machine) _ (Machine.reordered order) root >>= bundleFrom root quiet := by
    unfold collectIn collect bundleFrom readBundle
    simp only [readSources_reordered]
    rfl
  rw [hcollect, perform_bind, hscan]
  cases sourcesOf root (order (s.files.entriesBelow s.current root)) with
  | error e => rfl
  | ok sources => exact perform_bundleFrom root quiet sources s

/-- Collecting is collecting in the order in which a walk comes to things. -/
theorem collectIn_id (root : Path) (quiet : Bool) :
    collectIn id root quiet = collect root quiet := rfl

/-! ## §5. The assets of a run. -/

/-- Whether all visible files below a directory can be embedded: their names
are text, and they can be read. -/
structure Machine.Scannable (s : Machine) (root : Path) (place : Location) : Prop where
  leads : s.files.resolve .target s.current root = .ok (.folder place)
  real : ∃ d, s.files.entryAt place = some (.folder d)
  text : ∀ names content, s.files.Visible place names content → AreText names
  readable : ∀ names content, s.files.Visible place names content →
    (s.files.readFile s.current (root.descend names.names)).isOk = true

namespace FileTree

/-- Whether assets are the visible files below a place, each of them once under
its names and with its bytes, and in ascending order of their paths. -/
def EmbeddedAs (t : FileTree) (place : Location) (assets : List Asset) : Prop :=
  ∃ files : List (Location × List UInt8), files.Nodup
    ∧ (∀ names content, (names, content) ∈ files ↔ t.Visible place names content)
    ∧ assets = files.map Asset.ofFile
    ∧ assets.Pairwise fun a b => Utf8.encode a.path < Utf8.encode b.path

/-- Whether an identifier would be declared for two visible files below a place. -/
def CollidesAt (t : FileTree) (place : Location) (e : BundleError) : Prop :=
  ∃ file file' : Location × List UInt8, ∃ ident, t.Visible place file.1 file.2
    ∧ t.Visible place file'.1 file'.2 ∧ (Asset.ofFile file).path ≠ (Asset.ofFile file').path
    ∧ ident ∈ (Asset.ofFile file).idents ∧ ident ∈ (Asset.ofFile file').idents
    ∧ e = .collision ident (Asset.ofFile file).path (Asset.ofFile file').path

/-- What the visible files below a place are embedded as. -/
def assetsAt (t : FileTree) (place : Location) : List Asset :=
  sortAssets ((t.visibleAt place).map Asset.ofFile)

end FileTree

namespace Machine.Scannable

variable {s s' : Machine} {root root' : Path} {place place' : Location}

theorem ne_nil (h : s.Scannable root place) {names : Location} {content : List UInt8}
    (hv : s.files.Visible place names content) : names ≠ [] := by
  rintro rfl
  obtain ⟨d, hd⟩ := h.real
  have hfile := hv.2
  rw [List.append_nil, hd] at hfile
  cases hfile

theorem mem_visibleAt (h : s.Scannable root place) {file : Location × List UInt8} :
    file ∈ s.files.visibleAt place ↔ s.files.Visible place file.1 file.2 := by
  obtain ⟨d, hd⟩ := h.real
  exact FileTree.mem_visibleAt hd

/-- What a visible file is embedded as tells which file it is. -/
theorem eq_of_path_eq (h : s.Scannable root place) {file file' : Location × List UInt8}
    (hf : file ∈ s.files.visibleAt place) (hf' : file' ∈ s.files.visibleAt place)
    (heq : (Asset.ofFile file).path = (Asset.ofFile file').path) : file = file' := by
  have hv := h.mem_visibleAt.1 hf
  have hv' := h.mem_visibleAt.1 hf'
  have hnames : file.1 = file'.1 := eq_of_storedPath_eq (h.ne_nil hv) (h.ne_nil hv')
    (h.text _ _ hv) (h.text _ _ hv') heq
  have hcontent := hv.2
  rw [hnames, hv'.2] at hcontent
  exact Prod.ext hnames (Entry.file.inj (Option.some.inj hcontent)).symm

/-- An asset is told from the others by its path. -/
theorem asset_eq_of_path_eq (h : s.Scannable root place) :
    ∀ a ∈ (s.files.visibleAt place).map Asset.ofFile,
      ∀ b ∈ (s.files.visibleAt place).map Asset.ofFile, a.path = b.path → a = b := by
  intro a ha b hb heq
  obtain ⟨file, hf, rfl⟩ := List.mem_map.1 ha
  obtain ⟨file', hf', rfl⟩ := List.mem_map.1 hb
  exact congrArg Asset.ofFile (h.eq_of_path_eq hf hf' heq)

theorem strict_assetsAt (h : s.Scannable root place) :
    (s.files.assetsAt place).Pairwise fun a b => Utf8.encode a.path < Utf8.encode b.path := by
  -- no two of the files are embedded under one path
  have hpaths : ((s.files.visibleAt place).map Asset.ofFile).Pairwise fun a b => a.path ≠ b.path :=
    List.pairwise_map.2 ((s.files.nodup_visibleAt place).imp_of_mem fun hf hf' hne heq =>
      hne (h.eq_of_path_eq hf hf' heq))
  have hsorted : (s.files.assetsAt place).Pairwise fun a b => a.precedes b = true :=
    pairwise_sortAssets _
  have happart : (s.files.assetsAt place).Pairwise fun a b => a.path ≠ b.path :=
    (Order.sortBy_perm _ _).symm.pairwise hpaths fun hne => Ne.symm hne
  refine (hsorted.and happart).imp fun {a b} hab => ?_
  obtain ⟨hle, hne⟩ := hab
  simp only [Asset.precedes, decide_eq_true_eq] at hle
  exact (List.le_iff_lt_or_eq.1 hle).resolve_right fun heq => hne (Utf8.encode_injective heq)

theorem embeddedAs (h : s.Scannable root place) :
    s.files.EmbeddedAs place (s.files.assetsAt place) := by
  have hperm := Order.sortBy_perm (fun a b => (Asset.ofFile a).precedes (Asset.ofFile b))
    (s.files.visibleAt place)
  refine ⟨_, hperm.nodup_iff.2 (s.files.nodup_visibleAt place), fun names content => ?_,
    sortBy_map Asset.ofFile Asset.precedes _, h.strict_assetsAt⟩
  rw [hperm.mem_iff, h.mem_visibleAt]

/-- Two assets that share an identifier are two visible files. -/
theorem collidesAt (h : s.Scannable root place) {clash : Clash}
    (hclash : firstClash [] (declarations (s.files.assetsAt place)) = some clash) :
    s.files.CollidesAt place (.collision clash.ident clash.first clash.second) := by
  -- an asset is a file
  have hfile : ∀ a ∈ s.files.assetsAt place, ∃ file : Location × List UInt8,
      s.files.Visible place file.1 file.2 ∧ Asset.ofFile file = a := by
    intro a ha
    obtain ⟨file, hf, rfl⟩ := List.mem_map.1 (Order.mem_sortBy.1 ha)
    exact ⟨file, h.mem_visibleAt.1 hf, rfl⟩
  obtain ⟨front, b, rest, hsplit, hrepeats⟩ := repeatsAfter_of_clash hclash
  obtain ⟨a, ha, hfirst, hi⟩ := hrepeats.first
  obtain ⟨own, later, hidents, -⟩ := hrepeats.ident
  -- the one before has the smaller path
  have hstrict := h.strict_assetsAt
  rw [hsplit, List.pairwise_append] at hstrict
  have hlt := hstrict.2.2 a ha b List.mem_cons_self
  obtain ⟨file, hv, rfl⟩ := hfile a (hsplit ▸ List.mem_append_left _ ha)
  obtain ⟨file', hv', rfl⟩ := hfile b (hsplit ▸ List.mem_append_right _ List.mem_cons_self)
  refine ⟨file, file', clash.ident, hv, hv', fun heq => ?_, hi, ?_, ?_⟩
  · rw [heq] at hlt
    exact List.lt_irrefl _ hlt
  · rw [hidents]
    exact List.mem_append_right _ List.mem_cons_self
  · rw [hfirst, hrepeats.second]

/-- A visible file is read where its names lead. -/
theorem readFile_visible (h : s.Scannable root place) {names : Location} {content : List UInt8}
    (hv : s.files.Visible place names content) :
    s.files.readFile s.current (root.descend names.names) = .ok content := by
  have hread := h.readable names content hv
  cases hfile : s.files.readFile s.current (root.descend names.names) with
  | error e => simp [hfile, Except.isOk, Except.toBool] at hread
  | ok bytes =>
    have hfault := FileTree.fault?_of_readFile hfile
    exact hfile.symm.trans (FileTree.readFile_descend h.leads (h.ne_nil hv) hv.2 hfault)

/-- What is read at a visible file is what the file is embedded as. -/
theorem assetAt_ofNames (h : s.Scannable root place) {file : Location × List UInt8}
    (hf : file ∈ s.files.visibleAt place) :
    s.files.assetAt s.current root (Found.ofNames file.1) = Asset.ofFile file := by
  have hread := h.readFile_visible (h.mem_visibleAt.1 hf)
  unfold FileTree.assetAt Found.ofNames
  dsimp only
  rw [show file.1.map EntryName.bytes = file.1.names from rfl, hread]
  rfl

/-- Collecting finds the visible files, in whatever order a walk comes to them. -/
theorem collect_assets (h : s.Scannable root place) {order : List Found → List Found}
    (horder : Reorders order) (quiet : Bool) :
    (s.perform (collectIn order root quiet)).1
      = (Bundle.ofAssets root ((s.files.visibleAt place).map Asset.ofFile)).mapError
          BundleError.failure := by
  have hdirectory : s.files.isDirectory s.current root = true := by
    unfold FileTree.isDirectory
    rw [h.leads]
  have hroot := FileTree.ne_nil_of_resolve h.leads
  -- the files among what the walk comes to are the visible ones
  let files := (order (s.files.entriesBelow s.current root)).filter Found.isFile
  have hfiles : files.Perm ((s.files.visibleAt place).map fun file => Found.ofNames file.1) :=
    ((horder _).filter _).trans (FileTree.perm_filter_entriesBelow h.leads h.real)
  have hfound : ∀ f ∈ files, ∃ file ∈ s.files.visibleAt place, Found.ofNames file.1 = f :=
    fun f hf => List.mem_map.1 (hfiles.mem_iff.1 hf)
  have hsources : sourcesOf root (order (s.files.entriesBelow s.current root))
      = .ok (files.map (sourceOf root)) := by
    rw [← sourcesOf_filter]
    refine sourcesOf_eq hroot fun f hf => ?_
    obtain ⟨file, hfile, rfl⟩ := hfound f hf
    have hv := h.mem_visibleAt.1 hfile
    exact ⟨file.1, rfl, h.ne_nil hv, h.text _ _ hv, hv.1⟩
  have hassets : s.files.assetsOf s.current (files.map (sourceOf root))
      = .ok (files.map (s.files.assetAt s.current root)) := by
    refine FileTree.assetsOf_eq fun f hf => ?_
    obtain ⟨file, hfile, rfl⟩ := hfound f hf
    exact h.readable _ _ (h.mem_visibleAt.1 hfile)
  -- and the order of what they are embedded as makes no difference
  have hperm : (files.map (s.files.assetAt s.current root)).Perm
      ((s.files.visibleAt place).map Asset.ofFile) := by
    refine (hfiles.map _).trans (List.Perm.of_eq ?_)
    rw [List.map_map]
    exact List.map_congr_left fun file hf => h.assetAt_ofNames hf
  rw [perform_collectIn order quiet hdirectory, hsources]
  show (s.files.bundled s.current s.turns root (files.map (sourceOf root))).mapError _ = _
  unfold FileTree.bundled
  rw [FileTree.readAll_eq_ok_iff.2 hassets]
  exact congrArg _ (ofAssets_perm hperm)

end Machine.Scannable

/-- What is rendered of the files below a directory. -/
def renderedIn (order : List Found → List Found) (root : Path) (quiet : Bool) (st : Settings) :
    ExceptT Failure (StateM Machine) (List Rendered) := do
  let b ← collectIn order root quiet
  Failure.ofBundle (render b st)

theorem perform_renderedIn {s : Machine} {root : Path} {place : Location}
    (h : s.Scannable root place) {order : List Found → List Found} (horder : Reorders order)
    (quiet : Bool) (st : Settings) :
    (s.perform (renderedIn order root quiet st)).1
      = ((Bundle.ofAssets root ((s.files.visibleAt place).map Asset.ofFile)).bind
          (render · st)).mapError BundleError.failure := by
  have hcollect := h.collect_assets horder quiet
  unfold renderedIn
  rw [perform_bind]
  cases hs : s.perform (collectIn order root quiet) with
  | mk outcome next =>
    rw [hs] at hcollect
    dsimp only at hcollect ⊢
    cases hb : Bundle.ofAssets root ((s.files.visibleAt place).map Asset.ofFile) with
    | error e =>
      rw [hb] at hcollect
      cases hcollect
      rfl
    | ok b =>
      rw [hb] at hcollect
      cases hcollect
      exact congrArg Prod.fst (perform_ofBundle (render b st) next)

/-- Bundles of the same assets are made of the same files, or of none. -/
theorem bind_render_congr {assets assets' : List Asset} (h : sortAssets assets = sortAssets assets')
    (root root' : Path) (st : Settings) (webDir outputDir : Path) :
    (Bundle.ofAssets root assets).bind (render · st)
      = (Bundle.ofAssets root' assets').bind (render · { st with webDir, outputDir }) := by
  cases hclash : firstClash [] (declarations (sortAssets assets)) with
  | some clash =>
    rw [ofAssets_of_clash hclash, ofAssets_of_clash (h ▸ hclash)]
    rfl
  | none =>
    obtain ⟨b, hb, -, hassets⟩ := ofAssets_of_unclashed root hclash
    obtain ⟨b', hb', -, hassets'⟩ := ofAssets_of_unclashed root' (h ▸ hclash)
    rw [hb, hb']
    exact render_eq_of_assets (hassets.trans (h.trans hassets'.symm)) st webDir outputDir

/-- A bundle holds the visible files below its root and nothing else, each of
them once, under its names and with its bytes, and in ascending order, whatever
the order in which a walk comes to them; only an identifier that would be
declared for two of them is refused.  So wherever the same files are visible the
same is rendered or refused. -/
theorem collect_exact {s : Machine} {root : Path} {place : Location}
    (h : s.Scannable root place) :
    (∀ order quiet, Reorders order →
      match (s.perform (collectIn order root quiet)).1 with
      | .ok b => s.files.EmbeddedAs place b.assets
      | .error f => ∃ e, f = BundleError.failure e ∧ s.files.CollidesAt place e)
    ∧ ∀ (s' : Machine) (root' : Path) (place' : Location), s'.Scannable root' place' →
      (∀ names content,
        s.files.Visible place names content ↔ s'.files.Visible place' names content) →
      ∀ order order' quiet quiet' st webDir outputDir, Reorders order → Reorders order' →
        (s.perform (renderedIn order root quiet st)).1
          = (s'.perform (renderedIn order' root' quiet' { st with webDir, outputDir })).1 := by
  refine ⟨fun order quiet horder => ?_, ?_⟩
  · rw [h.collect_assets horder quiet]
    cases hclash : firstClash [] (declarations (s.files.assetsAt place)) with
    | some clash =>
      rw [ofAssets_of_clash hclash]
      exact ⟨_, rfl, h.collidesAt hclash⟩
    | none =>
      obtain ⟨b, hb, -, hassets⟩ := ofAssets_of_unclashed root hclash
      rw [hb]
      show s.files.EmbeddedAs place b.assets
      rw [hassets]
      exact h.embeddedAs
  · intro s' root' place' h' hsame order order' quiet quiet' st webDir outputDir horder horder'
    have hperm : (s.files.visibleAt place).Perm (s'.files.visibleAt place') := by
      obtain ⟨d, hd⟩ := h.real
      obtain ⟨d', hd'⟩ := h'.real
      exact FileTree.perm_visibleAt hd hd' hsame
    have hsorted := sortAssets_eq_of_perm (hperm.map Asset.ofFile) h.asset_eq_of_path_eq
    rw [perform_renderedIn h horder, perform_renderedIn h' horder',
      bind_render_congr hsorted root root' st webDir outputDir]

/-- A directory is scannable if all files on the list of the visible ones are. -/
theorem scannable_of_visibleAt {s : Machine} {root : Path} {place : Location}
    (leads : s.files.resolve .target s.current root = .ok (.folder place))
    (real : ∃ d, s.files.entryAt place = some (.folder d))
    (h : ∀ file ∈ s.files.visibleAt place,
      (∀ name ∈ file.1, (Utf8.decode? name.bytes).isSome = true)
        ∧ (s.files.readFile s.current (root.descend (Location.names file.1))).isOk = true) :
    s.Scannable root place where
  leads := leads
  real := real
  text names content hv := by
    obtain ⟨d, hd⟩ := real
    exact (h (names, content) ((FileTree.mem_visibleAt hd).2 hv)).1
  readable names content hv := by
    obtain ⟨d, hd⟩ := real
    exact (h (names, content) ((FileTree.mem_visibleAt hd).2 hv)).2

section
open AssetEmbed.Configuration (webName)

/-- The name of a style sheet. -/
def styleName : EntryName := ⟨Utf8.encode "a.css", by decide⟩

/-- The name of a directory. -/
def partsName : EntryName := ⟨Utf8.encode "a", by decide⟩

/-- The name of a page. -/
def pageName : EntryName := ⟨Utf8.encode "z", by decide⟩

/-- The name of a hidden file. -/
def hiddenName : EntryName := ⟨Utf8.encode ".env", by decide⟩

/-- A machine with two files below `web`. -/
def plainSite : Machine :=
  .start ((((FileTree.empty.putFolder [] webName).putFolder [webName] partsName).putFile
    [webName, partsName] pageName [0x7A]).putFile [webName] styleName [0x61]) []

/-- A machine with the same two files, a hidden one and a link below `a/web`. -/
def mixedSite : Machine :=
  .start (((((((FileTree.empty.putFolder [] partsName).putFolder [partsName] webName).putFile
    [partsName, webName] styleName [0x61]).putFile [partsName, webName] hiddenName [0x62]).putFolder
    [partsName, webName] partsName).putFile [partsName, webName, partsName] pageName [0x7A]).putLink
    [partsName, webName] pageName (.ofString "a.css")) [partsName]

theorem scannable_plainSite : plainSite.Scannable (.ofString "/web") [webName] :=
  scannable_of_visibleAt (by decide +kernel) ⟨_, rfl⟩ (by decide +kernel)

theorem scannable_mixedSite : mixedSite.Scannable (.ofString "web") [partsName, webName] :=
  scannable_of_visibleAt (by decide +kernel) ⟨_, rfl⟩ (by decide +kernel)

/-- A hidden file, a link and another order make no difference; the style sheet
comes first, though a walk comes to the directory `a` before it. -/
theorem collect_exact_mixedSite :
    (∃ b, (mixedSite.perform (collectIn List.reverse (.ofString "web") true)).1 = .ok b
      ∧ b.assets.map Asset.path = ["a.css", "a/z"]
      ∧ mixedSite.files.EmbeddedAs [partsName, webName] b.assets)
    ∧ (mixedSite.perform (renderedIn List.reverse (.ofString "web") true .default)).1
      = (plainSite.perform (renderedIn id (.ofString "/web") false .default)).1 := by
  have hreverse : Reorders List.reverse := fun found => found.reverse_perm
  obtain ⟨hembedded, hsame⟩ := collect_exact scannable_mixedSite
  refine ⟨?_, ?_⟩
  · have hpaths : ((mixedSite.perform (collectIn List.reverse (.ofString "web") true)).1.map
        fun b => b.assets.map Asset.path) = .ok ["a.css", "a/z"] := by decide +kernel
    have hfiles := hembedded List.reverse true hreverse
    cases hrun : (mixedSite.perform (collectIn List.reverse (.ofString "web") true)).1 with
    | error f =>
      rw [hrun] at hpaths
      cases hpaths
    | ok b =>
      rw [hrun] at hpaths hfiles
      exact ⟨b, rfl, Except.ok.inj hpaths, hfiles⟩
  · have hperm : (mixedSite.files.visibleAt [partsName, webName]).Perm
        (plainSite.files.visibleAt [webName]) := by decide +kernel
    refine hsame plainSite (.ofString "/web") [webName] scannable_plainSite (fun names content => ?_)
      List.reverse id true false .default _ _ hreverse fun found => .refl found
    have hmixed : (names, content) ∈ mixedSite.files.visibleAt [partsName, webName]
        ↔ mixedSite.files.Visible [partsName, webName] names content :=
      scannable_mixedSite.mem_visibleAt
    exact hmixed.symm.trans (hperm.mem_iff.trans scannable_plainSite.mem_visibleAt)

end

end AssetEmbed
