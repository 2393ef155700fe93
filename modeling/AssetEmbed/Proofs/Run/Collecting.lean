/-
  AssetEmbed.Proofs.Run.Collecting — collecting assets only looks at the files.

  The assets of a run are collected by questions about the files.  Neither a
  problem on the way nor a name that cannot be used changes a file, and a
  listing ends there.  The turns that threads take decide which of several files
  that cannot be read is the problem, and nothing else.

  Main results:
    * `gathers_collectFor` — collecting changes nothing.
    * `perform_collect`    — what is collected is a matter of the files and of turns.
    * `perform_listAssets` — a listing changes nothing, and prints nothing if it
      fails.
-/
import AssetEmbed.Proofs.Plan
import AssetEmbed.Proofs.Run.Threads

namespace AssetEmbed

open Machine

/-! ## §1. Problems that come up before anything is written. -/

theorem not_writes_of_ofFound? {root : Path} {f : Found} {e : BundleError}
    (h : Source.ofFound? root f = .error e) : ¬ (Cause.bundle e).Writes := by
  unfold Source.ofFound? relativePath at h
  split at h
  · split at h
    · cases h
      rintro ⟨⟩
    · split at h <;> cases h
      rintro ⟨⟩
  · cases h

theorem not_writes_of_sourcesOf {root : Path} {found : List Found} {e : BundleError}
    (h : sourcesOf root found = .error e) : ¬ (Cause.bundle e).Writes := by
  induction found with
  | nil => cases h
  | cons f rest ih =>
    rw [sourcesOf] at h
    cases hfirst : Source.ofFound? root f with
    | error e' =>
      rw [hfirst] at h
      cases h
      exact not_writes_of_ofFound? hfirst
    | ok source =>
      rw [hfirst] at h
      cases hrest : sourcesOf root rest with
      | error e' =>
        rw [hrest] at h
        cases h
        exact ih hrest
      | ok sources =>
        rw [hrest] at h
        cases h

theorem not_writes_of_ofAssets {root : Path} {assets : List Asset} {e : BundleError}
    (h : Bundle.ofAssets root assets = .error e) : ¬ (Cause.bundle e).Writes := by
  unfold Bundle.ofAssets at h
  split at h <;> cases h
  rintro ⟨⟩

theorem not_writes_of_plan {b : Bundle} {s : Settings} {e : BundleError}
    (h : plan b s = .error e) : ¬ (Cause.bundle e).Writes := by
  unfold plan planError? at h
  split at h
  · next e' he =>
    cases h
    split at he
    · next hreserved =>
      cases he
      obtain ⟨a, -, hident⟩ := List.exists_of_findSome?_eq_some hreserved
      obtain ⟨ident, -, rfl⟩ := Option.map_eq_some_iff.1 hident
      rintro ⟨⟩
    · split at he
      · cases he
      · obtain ⟨-, -, -, -, -, -, -, rfl⟩ := firstFileClash_eq_some he
        rintro ⟨⟩
  · cases h

theorem looks_ofBundle {α : Type} {x : Except BundleError α}
    (h : ∀ e, x = .error e → ¬ (Cause.bundle e).Writes) :
    Looks (Failure.ofBundle x) fun _ => True := by
  refine looks_ofExcept (fun _ _ => trivial) fun cause hcause => ?_
  cases x with
  | error e =>
    cases hcause
    exact h e rfl
  | ok a => cases hcause

/-! ## §2. Collecting. -/

theorem looks_scanSources (root : Path) :
    Looks (scanSources root : ExceptT Failure (StateM Machine) _) fun _ => True := by
  have hfiles : Looks (Host.entriesBelow root >>= fun found =>
      Failure.ofBundle (sourcesOf root found)) fun _ => True :=
    Looks.bind (looks_ask _) fun found _ => looks_ofBundle fun _ => not_writes_of_sourcesOf
  refine Looks.bind (looks_ask _) fun found _ => ?_
  cases found with
  | false => exact Looks.bind (P := fun _ => True) (.throw (by rintro ⟨⟩)) fun _ _ => hfiles
  | true => exact hfiles

/-- What is read depends on the files and the turns alone, and all else that is done
is to tell of it. -/
theorem perform_readSources (shown : Bool) (sources : List Source) (s : Machine) : ∃ es,
    s.perform (readSources shown sources)
      = ((s.files.readAll s.current s.turns sources).mapError BundleError.failure,
        s.telling es) := by
  obtain ⟨es, -, h⟩ := perform_readInTurns s.turns shown sources s
  have hread : s.perform (readSources shown sources)
      = s.perform (readInTurns s.turns shown sources) := rfl
  unfold FileTree.readAll
  rw [hread]
  rcases h with ⟨e, hfault, hperform⟩ | ⟨assets, hfault, hassets, hperform, -⟩
  · rw [hperform, hfault]
    exact ⟨_, rfl⟩
  · rw [hperform, hfault, hassets]
    exact ⟨es, rfl⟩

theorem not_writes_of_readAll {t : FileTree} {current : Location} {turns : List Turn}
    {sources : List Source} {e : BundleError} (h : t.readAll current turns sources = .error e) :
    ¬ (Cause.bundle e).Writes := by
  obtain ⟨source, -, hfault⟩ := FileTree.exists_of_firstFault? (FileTree.readAll_eq_error_iff.1 h)
  obtain ⟨cause, rfl⟩ := FileTree.read_of_fault? hfault
  rintro ⟨⟩

theorem gathers_readSources (shown : Bool) (sources : List Source) :
    Gathers (readSources shown sources) fun _ => True := by
  refine ⟨⟨fun s => ?_, fun s => ?_, fun _ _ _ => trivial, fun s f hf => ?_⟩, fun s s' hsame => ?_⟩
  · obtain ⟨es, hperform⟩ := perform_readSources shown sources s
    rw [hperform]
    exact twins_telling s es
  · obtain ⟨es, hperform⟩ := perform_readSources shown sources s
    rw [hperform]
    rfl
  · obtain ⟨es, hperform⟩ := perform_readSources shown sources s
    rw [hperform] at hf
    cases hread : s.files.readAll s.current s.turns sources with
    | ok assets =>
      rw [hread] at hf
      cases hf
    | error e =>
      rw [hread] at hf
      cases hf
      exact not_writes_of_readAll hread
  · obtain ⟨es, hperform⟩ := perform_readSources shown sources s
    obtain ⟨es', hperform'⟩ := perform_readSources shown sources s'
    rw [hperform, hperform', hsame.files, hsame.current, hsame.turns]

/-- Gathers the sources of a bundle; `shown` says whether there is a progress line. -/
def readBundle (root : Path) (shown : Bool) (sources : List Source) :
    ExceptT Failure (StateM Machine) Bundle := do
  let assets ← readSources shown sources
  if shown then Host.tell (.log .finish)
  Failure.ofBundle (Bundle.ofAssets root assets)

/-- Makes a bundle of sources. -/
def bundleFrom (root : Path) (quiet : Bool) (sources : List Source) :
    ExceptT Failure (StateM Machine) Bundle := do
  debugMessage "scan"
    ("found " ++ toString sources.length ++ " files under " ++ root.display)
  let shown := !quiet && !sources.isEmpty
  if shown then Host.tell (.log (.progress [(readCounter, sources.length)]))
  readBundle root shown sources

theorem collect_eq (root : Path) (quiet : Bool) :
    (collect root quiet : ExceptT Failure (StateM Machine) _)
      = scanSources root >>= bundleFrom root quiet := rfl

theorem looks_ofAssets (root : Path) (assets : List Asset) :
    Looks (Failure.ofBundle (Bundle.ofAssets root assets)) fun _ => True :=
  looks_ofBundle fun _ => not_writes_of_ofAssets

theorem gathers_readBundle (root : Path) (shown : Bool) (sources : List Source) :
    Gathers (readBundle root shown sources) fun _ => True :=
  (gathers_readSources shown sources).bind fun assets _ =>
    (looks_ofAssets root assets).gathers.after_tell shown _

theorem gathers_bundleFrom (root : Path) (quiet : Bool) (sources : List Source) :
    Gathers (bundleFrom root quiet sources) fun _ => True :=
  (looks_tell _).gathers.bind fun _ _ => (gathers_readBundle root _ sources).after_tell _ _

theorem gathers_collect (root : Path) (quiet : Bool) :
    Gathers (collect root quiet : ExceptT Failure (StateM Machine) _) fun _ => True :=
  (looks_scanSources root).gathers.bind fun sources _ => gathers_bundleFrom root quiet sources

/-- Collecting the assets of a run changes nothing. -/
theorem gathers_collectFor (s : Settings) (quiet : Bool) :
    Gathers (collectFor s quiet : ExceptT Failure (StateM Machine) _) fun _ => True :=
  (gathers_collect s.webDir quiet).during _

/-! ## §3. What is collected. -/

namespace FileTree

variable (t : FileTree) (current : Location)

/-- The sources below a directory. -/
def sourcesBelow (root : Path) : Except BundleError (List Source) :=
  if t.isDirectory current root then sourcesOf root (t.entriesBelow current root)
  else .error (.missingRoot root)

variable (turns : List Turn)

/-- The bundle of the assets that sources hold. -/
def bundled (root : Path) (sources : List Source) : Except BundleError Bundle := do
  Bundle.ofAssets root (← t.readAll current turns sources)

/-- The bundle of the files below a directory. -/
def collected (root : Path) : Except BundleError Bundle := do
  t.bundled current turns root (← t.sourcesBelow current root)

end FileTree

theorem perform_ofBundle {α : Type} (x : Except BundleError α) (s : Machine) :
    s.perform (Failure.ofBundle x) = (x.mapError BundleError.failure, s) := by
  cases x <;> rfl

theorem perform_scanSources (root : Path) (s : Machine) :
    (s.perform (scanSources root)).1
      = (s.files.sourcesBelow s.current root).mapError BundleError.failure := by
  have hdirectory : s.perform (Host.isDirectory root)
      = (.ok (s.files.isDirectory s.current root), s) := rfl
  have hentries : s.perform (Host.entriesBelow root)
      = (.ok (s.files.entriesBelow s.current root), s) := rfl
  unfold scanSources FileTree.sourcesBelow
  rw [perform_bind, hdirectory]
  cases s.files.isDirectory s.current root with
  | false => rfl
  | true =>
    show (s.perform (Host.entriesBelow root >>= fun found =>
      Failure.ofBundle (sourcesOf root found))).1 = _
    rw [perform_bind, hentries]
    exact congrArg Prod.fst (perform_ofBundle _ s)

theorem perform_readBundle (root : Path) (shown : Bool) (sources : List Source) (s : Machine) :
    (s.perform (readBundle root shown sources)).1
      = (s.files.bundled s.current s.turns root sources).mapError BundleError.failure := by
  have hgathers (assets : List Asset) := (looks_ofAssets root assets).gathers
  unfold readBundle FileTree.bundled
  obtain ⟨es, hread⟩ := perform_readSources shown sources s
  refine ((gathers_readSources shown sources).answer_bind (fun assets _ =>
    (hgathers assets).after_tell shown (.log .finish)) s).trans ?_
  rw [hread]
  dsimp only
  cases s.files.readAll s.current s.turns sources with
  | error e => rfl
  | ok assets =>
    refine ((hgathers assets).answer_after_tell shown (.log .finish) s).trans ?_
    rw [perform_ofBundle]
    rfl

/-- Whether there is a progress line makes no difference to what is read. -/
theorem perform_bundleFrom (root : Path) (quiet : Bool) (sources : List Source) (s : Machine) :
    (s.perform (bundleFrom root quiet sources)).1
      = (s.files.bundled s.current s.turns root sources).mapError BundleError.failure := by
  have hgathers := gathers_readBundle root (!quiet && !sources.isEmpty) sources
  have hprogress := hgathers.answer_after_tell (!quiet && !sources.isEmpty)
    (.log (.progress [(readCounter, sources.length)])) s
  refine ((looks_tell _).gathers.answer_bind (fun _ _ => hgathers.after_tell _ _) s).trans ?_
  exact hprogress.trans (perform_readBundle root _ sources s)

/-- What is collected is a matter of the files and of the turns that threads take. -/
theorem perform_collect (root : Path) (quiet : Bool) (s : Machine) :
    (s.perform (collect root quiet)).1
      = (s.files.collected s.current s.turns root).mapError BundleError.failure := by
  rw [collect_eq, (looks_scanSources root).gathers.answer_bind fun _ _ =>
    gathers_bundleFrom root quiet _, perform_scanSources]
  unfold FileTree.collected
  cases s.files.sourcesBelow s.current root with
  | error e => rfl
  | ok sources => exact perform_bundleFrom root quiet sources s

/-- A run that is to be quiet collects the same. -/
theorem perform_collectFor (st : Settings) (quiet quiet' : Bool) (s : Machine) :
    (s.perform (collectFor st quiet)).1 = (s.perform (collectFor st quiet')).1 := by
  unfold collectFor
  rw [perform_during, perform_during, perform_collect, perform_collect]

/-! ## §4. Listing. -/

/-- Collects the assets of a listing, and makes sure that they could be generated. -/
def listable (c : Configuration) : ExceptT Failure (StateM Machine) Bundle := do
  let b ← collectFor c.settings true
  let _ ← Failure.ofBundle (plan b c.settings)
  return b

/-- Shows the assets of a bundle, or those that are asked for. -/
def showRows (queries : List String) (json : Bool) (b : Bundle) :
    ExceptT Failure (StateM Machine) Unit :=
  if json then Host.print (Row.jsonList (Row.select b queries))
  else do
    Host.print (Row.table (Row.select b queries))
    if queries.isEmpty then tellSummary b

theorem listAssets_eq (c : Configuration) (queries : List String) (json : Bool) :
    listAssets c queries json = listable c >>= showRows queries json := by
  unfold listAssets listable showRows
  simp only [bind_assoc, pure_bind]

/-- Up to its first row a listing changes nothing. -/
theorem gathers_listable (c : Configuration) : Gathers (listable c) fun _ => True := by
  refine (gathers_collectFor c.settings true).bind fun b _ => ?_
  exact ((looks_ofBundle fun _ => not_writes_of_plan).bind fun _ _ => .pure trivial).gathers

theorem perform_listable (c : Configuration) (s : Machine) :
    (s.perform (listable c)).1 = (s.perform (collectFor c.settings true)).1.bind fun b =>
      ((plan b c.settings).map fun _ => b).mapError BundleError.failure := by
  have hplan (b : Bundle) : Looks (Failure.ofBundle (plan b c.settings) >>= fun _ => pure b)
      fun _ => True := (looks_ofBundle fun _ => not_writes_of_plan).bind fun _ _ => .pure trivial
  have hcollect := gathers_collectFor c.settings true
  refine (hcollect.answer_bind (fun b _ => (hplan b).gathers) s).trans ?_
  refine congrArg _ (funext fun b => ?_)
  rw [perform_bind, perform_ofBundle]
  cases plan b c.settings <;> rfl

/-- Showing rows does not fail. -/
theorem tells_showRows (queries : List String) (json : Bool) (b : Bundle) :
    Tells (showRows queries json b) () := by
  unfold showRows
  split
  · exact tells_print _
  · refine (tells_print _).bind ?_
    split
    · unfold tellSummary
      split <;> exact tells_tell _
    · exact .pure ()

/-- A listing fails only before its first row. -/
theorem perform_listAssets (c : Configuration) (queries : List String) (json : Bool)
    (s : Machine) :
    (s.perform (listAssets c queries json)).1 = (s.perform (listable c)).1.map (fun _ => ())
      ∧ Twins s (s.perform (listAssets c queries json)).2
      ∧ ∀ f, (s.perform (listAssets c queries json)).1 = .error f →
        (s.perform (listAssets c queries json)).2.output = s.output := by
  have hgathers := gathers_listable c
  have htwins := hgathers.twins s
  have houtput := hgathers.output s
  rw [listAssets_eq, perform_bind]
  cases hlist : s.perform (listable c) with
  | mk outcome next =>
    rw [hlist] at htwins houtput
    cases outcome with
    | error f => exact ⟨rfl, htwins, fun _ _ => houtput⟩
    | ok b =>
      obtain ⟨s', hs', htwins'⟩ := tells_showRows queries json b next
      dsimp only
      rw [hs']
      exact ⟨rfl, htwins.trans htwins', fun f hf => by cases hf⟩

end AssetEmbed
