/-
  AssetEmbed.Proofs.Loading.Reload — loading a configuration again.

  Which configuration a run loads is a matter of the files that it looks for and
  of where its paths lead.  After files have been written elsewhere the paths
  lead where they led before, and so the same is loaded again; only an output
  directory that was missing may be spelled otherwise.

  Main results:
    * `perform_gather`     — what is gathered is a matter of the files alone.
    * `Path.parent?_spec`  — how the parent of a path is spelled.
    * `gather_again`       — the same is gathered from the same files.
    * `load_again`         — what is loaded then.
-/
import AssetEmbed.Proofs.Files.Rewriting
import AssetEmbed.Proofs.Loading.OutputCheck

namespace AssetEmbed

open Machine

/-! ## §1. What is gathered. -/

namespace Configuration

/-- The name of the configuration file of a command line. -/
def nameOf (inv : CommandLine.Invocation) : Path := inv.config.getD (.ofString defaultName)

/-- The paths at which the configuration file of a command line may be. -/
def sought (inv : CommandLine.Invocation) (current : Location) : List Path :=
  if (nameOf inv).isAbsolute then [nameOf inv] else candidates (Location.path current) (nameOf inv)

/-- Whether a search ends at a path. -/
def isHit (inv : CommandLine.Invocation) (s : Machine) (p : Path) : Bool :=
  if (nameOf inv).isAbsolute then s.files.isPresent s.current p else s.files.isFile s.current p

/-- The configuration file that is found. -/
def located (inv : CommandLine.Invocation) (s : Machine) : Option Path :=
  (sought inv s.current).find? (isHit inv s)

theorem perform_findM? (question : Path → FileTree → Location → Bool) (paths : List Path)
    (s : Machine) :
    s.perform (paths.findM? fun p => ExceptT.lift (ask (question p)))
      = (.ok (paths.find? fun p => question p s.files s.current), s) := by
  induction paths with
  | nil => rfl
  | cons p rest ih =>
    have hask : s.perform (ExceptT.lift (ask (question p)))
        = (.ok (question p s.files s.current), s) := rfl
    rw [List.findM?, perform_bind, hask, List.find?_cons]
    cases question p s.files s.current with
    | true => rfl
    | false => exact ih

theorem perform_locate (inv : CommandLine.Invocation) (s : Machine) :
    s.perform (locate (Location.path s.current) (nameOf inv)) = (.ok (located inv s), s) := by
  unfold locate located sought isHit
  split
  · have hpresent : s.perform (Host.isPresent (nameOf inv))
        = (.ok (s.files.isPresent s.current (nameOf inv)), s) := rfl
    rw [perform_bind, hpresent, List.find?_singleton]
    rfl
  · exact perform_findM? (fun p files current => files.isFile current p) _ s

/-- What the configuration file says, if one has been found. -/
def documentAt (s : Machine) : Option Path → Except Failure Document
  | none => .ok {}
  | some p =>
    match s.files.readFile s.current p with
    | .error e => .error (.ofCause (.configUnreadable p e))
    | .ok bytes => (decode p bytes).mapError Failure.ofCause

theorem tells_warnUnknown (p : Path) (unknown : List String) :
    Tells (warnUnknown p unknown : ExceptT Failure (StateM Machine) Unit) () := by
  unfold warnUnknown
  split
  · exact (tells_tell _).bind (tells_forM (fun _ => tells_tell _) unknown)
  · exact .pure ()

theorem perform_readDocument (p : Path) (s : Machine) :
    (s.perform (readDocument p)).1 = documentAt s (some p) := by
  have hread : s.perform (Host.readFile p) = (.ok (s.files.readFile s.current p), s) := rfl
  unfold readDocument documentAt
  rw [perform_bind, hread]
  dsimp only
  cases s.files.readFile s.current p with
  | error e => rfl
  | ok bytes =>
    dsimp only
    rw [perform_bind]
    cases decode p bytes with
    | error cause => rfl
    | ok document =>
      obtain ⟨s', hs', -⟩ := (tells_warnUnknown p document.unknown).perform_bind
        (f := fun _ => pure document) s
      exact congrArg Prod.fst hs'

/-- The directory that relative paths are seen from. -/
def rootPath (current : Location) (found : Option Path) : Path :=
  (found.bind Path.parent?).getD (Location.path current)

/-- What is gathered from a document that has been found. -/
def gatheredFrom (inv : CommandLine.Invocation) (s : Machine) (found : Option Path)
    (document : Document) : Configuration where
  file := found.map (normalized s)
  root := normalized s (rootPath s.current found)
  settings := Settings.default.override (inv.overrides.merge document.overrides)

/-- Puts together what a run is told once the document has been read. -/
def settle (inv : CommandLine.Invocation) (current : Path) (found : Option Path)
    (document : Document) : ExceptT Failure (StateM Machine) Configuration := do
  let file ← found.mapM normalize
  debugMessage "config" (fileMessage file)
  let root ← normalize ((found.bind Path.parent?).getD current)
  return {
    file, root, settings := Settings.default.override (inv.overrides.merge document.overrides) }

theorem looks_settle (inv : CommandLine.Invocation) (current : Path) (found : Option Path)
    (document : Document) : Looks (settle inv current found document) fun _ => True := by
  have hfile : Looks (found.mapM normalize) fun _ => True := by
    cases found with
    | none => exact .pure trivial
    | some path => exact (looks_normalize path).bind fun _ _ => .pure trivial
  exact hfile.bind fun file _ => (looks_tell _).bind fun _ _ =>
    (looks_normalize _).bind fun root _ => .pure trivial

theorem perform_mapM_normalize (found : Option Path) (s : Machine) :
    s.perform (found.mapM normalize) = (.ok (found.map (normalized s)), s) := by
  cases found with
  | none => rfl
  | some p =>
    show s.perform (normalize p >>= fun q => pure (some q)) = _
    rw [perform_bind, perform_normalize]
    rfl

theorem perform_settle (inv : CommandLine.Invocation) (found : Option Path) (document : Document)
    (s : Machine) :
    (s.perform (settle inv (Location.path s.current) found document)).1
      = .ok (gatheredFrom inv s found document) := by
  unfold settle
  rw [perform_bind, perform_mapM_normalize]
  dsimp only
  obtain ⟨s', hs', halike⟩ := (tells_debugMessage "config" _).perform_bind s
  rw [hs', perform_bind, perform_normalize]
  unfold gatheredFrom rootPath
  -- what is told changes no path
  have hroot : ∀ p, normalized s' p = normalized s p := by
    intro p
    unfold normalized
    rw [halike.files, halike.current]
  rw [hroot]
  rfl

/-- What is gathered is a matter of the files alone. -/
theorem perform_gather (inv : CommandLine.Invocation) (s : Machine) :
    (s.perform (gather inv)).1
      = if (located inv s).isNone ∧ inv.config.isSome then
          .error (.ofCause (.configNotFound (nameOf inv)))
        else (documentAt s (located inv s)).map (gatheredFrom inv s (located inv s)) := by
  have hcurrent : s.perform Host.workingDirectory = (.ok (Location.path s.current), s) := rfl
  unfold gather
  rw [perform_bind, hcurrent]
  show (s.perform (locate (Location.path s.current) (nameOf inv) >>= fun found => _)).1 = _
  rw [perform_bind, perform_locate]
  dsimp only
  generalize located inv s = found
  split
  · rfl
  · have hread : Looks (found.elim (pure {}) readDocument) fun _ => True := by
      cases found with
      | none => exact .pure trivial
      | some path => exact looks_readDocument path
    have hdocument : (s.perform (found.elim (pure {}) readDocument)).1 = documentAt s found := by
      cases found with
      | none => rfl
      | some path => exact perform_readDocument path s
    refine (hread.gathers.answer_bind (f := settle inv (Location.path s.current) found)
      (fun document _ => (looks_settle inv _ found document).gathers) s).trans ?_
    rw [hdocument]
    cases documentAt s found with
    | error f => rfl
    | ok document => exact perform_settle inv found document s

end Configuration

/-! ## §2. Parents. -/

namespace Path

theorem trimEnd_isPrefix (pieces : List Name) : trimEnd pieces <+: pieces := by
  have hsuffix := List.dropWhile_suffix isIdle (l := pieces.reverse)
  rw [← List.reverse_prefix, List.reverse_reverse] at hsuffix
  exact hsuffix

theorem splitSlash_slash (rest : List UInt8) :
    splitSlash (slash :: rest) = [] :: splitSlash rest := by simp [splitSlash]

/-- Nothing stands before the first separator of an absolute path. -/
theorem splitSlash_of_isAbsolute {p : Path} (hp : p.isAbsolute = true) :
    ∃ rest, splitSlash p.bytes = [] :: splitSlash rest := by
  cases hb : p.bytes with
  | nil => simp [isAbsolute, hb] at hp
  | cons b rest =>
    have hslash : b = slash := by simpa [isAbsolute, hb] using hp
    exact ⟨rest, by rw [hslash, splitSlash_slash]⟩

/-- The parent of an absolute path is the top, or is spelled by the first of
its pieces. -/
theorem parent?_spec {p up : Path} (hp : p.isAbsolute = true) (h : p.parent? = some up) :
    up.isAbsolute = true
      ∧ (up = ⟨[slash]⟩ ∨ ∃ more, more ≠ [] ∧ splitSlash p.bytes = splitSlash up.bytes ++ more) := by
  obtain ⟨rest, hpieces⟩ := splitSlash_of_isAbsolute hp
  unfold parent? at h
  rw [hpieces] at h
  dsimp only at h
  cases hkept : trimEnd (splitSlash rest) with
  | nil => simp [hkept] at h
  | cons piece others =>
    rw [hkept] at h
    cases h
    refine ⟨rfl, ?_⟩
    -- what is left of the pieces comes first among them, without the last that counts
    let front := trimEnd (piece :: others).dropLast
    obtain ⟨more, hmore, hfront⟩ : ∃ more, more ≠ [] ∧ splitSlash rest = front ++ more := by
      obtain ⟨idle, hidle⟩ := trimEnd_isPrefix (splitSlash rest)
      obtain ⟨idle', hidle'⟩ := trimEnd_isPrefix (piece :: others).dropLast
      refine ⟨idle' ++ [(piece :: others).getLast (List.cons_ne_nil _ _)] ++ idle, by simp, ?_⟩
      rw [← hidle, hkept, ← List.append_assoc, ← List.append_assoc, hidle',
        List.dropLast_concat_getLast]
    by_cases hnil : front = []
    · exact .inl (congrArg (fun pieces => Path.mk (slash :: joinSlash pieces)) hnil)
    · refine .inr ⟨more, hmore, ?_⟩
      have hslash : ∀ q ∈ front, slash ∉ q := fun q hq =>
        slash_notMem_of_mem_splitSlash (hfront ▸ List.mem_append_left _ hq)
      have hup : splitSlash (slash :: joinSlash front) = [] :: front := by
        rw [splitSlash_slash, splitSlash_joinSlash hnil hslash]
      rw [hpieces, hfront]
      show _ = splitSlash (slash :: joinSlash front) ++ more
      rw [hup]
      rfl

/-- All directories above an absolute path have absolute paths. -/
theorem isAbsolute_of_mem_ancestors {p d : Path} (hp : p.isAbsolute = true)
    (h : d ∈ p.ancestors) : d.isAbsolute = true := by
  have hall : ∀ fuel, ∀ p : Path, p.isAbsolute = true → ∀ d ∈ ancestorsUpTo fuel p,
      d.isAbsolute = true := by
    intro fuel
    induction fuel with
    | zero =>
      intro p hp d hd
      rwa [List.mem_singleton.1 hd]
    | succ fuel ih =>
      intro p hp d hd
      unfold ancestorsUpTo at hd
      cases hup : p.parent? with
      | none =>
        rw [hup] at hd
        rwa [List.mem_singleton.1 hd]
      | some up =>
        rw [hup] at hd
        rcases List.mem_cons.1 hd with rfl | hd
        · exact hp
        · exact ih up (parent?_spec hp hup).1 d hd
  exact hall _ p hp d h

end Path

/-- Where there is a file, the parent of its path leads to a directory. -/
theorem FileTree.walk_parent {t : FileTree} {current : Location} {p up : Path}
    {content : List UInt8} (hp : p.isAbsolute = true) (h : t.readFile current p = .ok content)
    (hup : p.parent? = some up) :
    ∃ found, walk t.entryAt .target linkLimit (up.start current) up.steps = .ok (.folder found) := by
  obtain ⟨habsolute, hspelled⟩ := Path.parent?_spec hp hup
  have hstart : up.start current = p.start current := by
    unfold Path.start
    rw [habsolute, hp]
  obtain ⟨r, hr⟩ : ∃ r, walk t.entryAt .target linkLimit (p.start current) p.steps = .ok r := by
    unfold readFile resolve at h
    cases hfault : p.fault? with
    | some e => simp [hfault] at h
    | none =>
      rw [hfault] at h
      dsimp only at h
      cases hwalk : walk t.entryAt .target linkLimit (p.start current) p.steps with
      | error e => simp [hwalk] at h
      | ok r => exact ⟨r, rfl⟩
  rcases hspelled with rfl | ⟨more, hmore, hpieces⟩
  · exact ⟨[], rfl⟩
  · rw [hstart]
    have hsteps : p.steps = up.steps ++ more.map Step.ofPiece := by
      unfold Path.steps
      rw [hpieces, List.map_append]
    rw [hsteps] at hr
    exact walk_front (by simpa using hmore) hr

/-! ## §3. Gathering again. -/

theorem FileTree.isFile_eq (t : FileTree) (current : Location) (p : Path) :
    t.isFile current p = (t.readFile current p).toOption.isSome := by
  unfold isFile readFile
  cases t.resolve .target current p with
  | error e => rfl
  | ok place => cases place <;> rfl

namespace Configuration

variable {inv : CommandLine.Invocation} {s s' : Machine} {c : Configuration}

/-- The paths at which a search has looked, up to the one where it has ended. -/
def searched (inv : CommandLine.Invocation) (s : Machine) : List Path :=
  (sought inv s.current).takeWhile (fun p => !isHit inv s p) ++ (located inv s).toList

/-- Whether there is the same to be read wherever the configuration was looked for. -/
def Kept (inv : CommandLine.Invocation) (s s' : Machine) : Prop :=
  ∀ p ∈ searched inv s, (s'.files.readFile s'.current p).toOption
    = (s.files.readFile s.current p).toOption

/-- A search ends where it ended if all the answers up to there are the same. -/
theorem find?_congr {paths : List Path} {hit hit' : Path → Bool}
    (h : ∀ p ∈ paths.takeWhile (fun p => !hit p) ++ (paths.find? hit).toList, hit' p = hit p) :
    paths.find? hit' = paths.find? hit := by
  induction paths with
  | nil => rfl
  | cons p rest ih =>
    rw [List.find?_cons, List.find?_cons]
    rw [List.takeWhile_cons, List.find?_cons] at h
    cases hp : hit p with
    | true =>
      rw [hp] at h
      rw [h p (by simp), hp]
    | false =>
      rw [hp] at h
      rw [h p (by simp), hp]
      exact ih fun q hq => h q (by simpa using .inr (by simpa using hq))

theorem mem_sought_of_mem_searched {p : Path} (h : p ∈ searched inv s) :
    p ∈ sought inv s.current := by
  rcases List.mem_append.1 h with h | h
  · exact (List.takeWhile_prefix _).subset h
  · exact List.mem_of_find?_eq_some (Option.mem_toList.1 h)

theorem located_again (hkept : Kept inv s s') (hcurrent : s'.current = s.current)
    (hfound : (nameOf inv).isAbsolute = true →
      (s.files.readFile s.current (nameOf inv)).toOption.isSome = true) :
    located inv s' = located inv s := by
  have hsought : sought inv s'.current = sought inv s.current := by rw [hcurrent]
  unfold located
  rw [hsought]
  refine find?_congr fun p hp => ?_
  have hread := hkept p hp
  unfold isHit
  cases habsolute : (nameOf inv).isAbsolute with
  | false =>
    rw [if_neg Bool.false_ne_true, if_neg Bool.false_ne_true, FileTree.isFile_eq,
      FileTree.isFile_eq, hread]
  | true =>
    -- what is at an absolute path is the file that was read
    have hname : p = nameOf inv := by
      have hp' := mem_sought_of_mem_searched hp
      unfold sought at hp'
      rw [if_pos habsolute] at hp'
      exact List.mem_singleton.1 hp'
    subst hname
    unfold FileTree.isPresent
    rw [FileTree.isFile_eq, FileTree.isFile_eq, hread, hfound habsolute, Bool.true_or, Bool.true_or]

theorem isAbsolute_of_mem_sought {current : Location} {p : Path} (h : p ∈ sought inv current) :
    p.isAbsolute = true := by
  unfold sought at h
  split at h
  · next habsolute =>
    rw [List.mem_singleton.1 h]
    exact habsolute
  · obtain ⟨d, hd, rfl⟩ := List.mem_map.1 h
    exact isAbsolute_join (Path.isAbsolute_of_mem_ancestors (Location.isAbsolute_path current) hd)

/-- The configuration file that has been found can be read, if anything is
gathered at all; without one none was asked for. -/
theorem readable_of_gather (h : (s.perform (gather inv)).1 = .ok c) :
    (located inv s = none ∧ inv.config = none)
      ∨ ∃ p content, located inv s = some p ∧ s.files.readFile s.current p = .ok content := by
  rw [perform_gather] at h
  split at h
  · cases h
  · next hasked =>
    cases hfound : located inv s with
    | none =>
      refine .inl ⟨rfl, ?_⟩
      rw [hfound] at hasked
      simpa using hasked
    | some p =>
      rw [hfound] at h
      cases hread : s.files.readFile s.current p with
      | error e =>
        unfold documentAt at h
        dsimp only at h
        rw [hread] at h
        cases h
      | ok content => exact .inr ⟨p, content, rfl, hread⟩

/-- Where a path leads to a directory, it is normalized as it was. -/
theorem normalized_kept {p : Path} {found : Location} (hk : Keeps s.files.entryAt s'.files.entryAt)
    (hcurrent : s'.current = s.current)
    (h : walk s.files.entryAt .target linkLimit (p.start s.current) p.steps = .ok (.folder found)) :
    normalized s' p = normalized s p := by
  unfold normalized
  rw [hcurrent, FileTree.canonical?_kept hk h]

/-- The working directory is a directory. -/
theorem walk_current (h : ∃ d, s.files.entryAt s.current = some (.folder d)) :
    walk s.files.entryAt .target linkLimit ((Location.path s.current).start s.current)
      (Location.path s.current).steps = .ok (.folder s.current) := by
  obtain ⟨d, hd⟩ := h
  have hstart : (Location.path s.current).start s.current = [] :=
    if_pos (Location.isAbsolute_path s.current)
  rw [hstart]
  exact walk_path_self (FileTree.solid_of_folder hd)

/-- The same configuration file is found again. -/
theorem located_of_gather (h : (s.perform (gather inv)).1 = .ok c) (hkept : Kept inv s s')
    (hcurrent : s'.current = s.current) : located inv s' = located inv s := by
  refine located_again hkept hcurrent fun habsolute => ?_
  rcases readable_of_gather h with ⟨-, hnone⟩ | ⟨p, content, hfound, hread⟩
  · -- the name that is looked for unasked is not absolute
    unfold nameOf at habsolute
    rw [hnone] at habsolute
    exact absurd habsolute (by decide)
  · have hmem := List.mem_of_find?_eq_some hfound
    unfold sought at hmem
    rw [if_pos habsolute] at hmem
    rw [← List.mem_singleton.1 hmem, hread]
    rfl

/-- The configuration file says the same again. -/
theorem documentAt_of_gather (h : (s.perform (gather inv)).1 = .ok c) (hkept : Kept inv s s') :
    documentAt s' (located inv s) = documentAt s (located inv s) := by
  rcases readable_of_gather h with ⟨hnone, -⟩ | ⟨p, content, hfound, hread⟩
  · rw [hnone]
    rfl
  · have hsame := hkept p (List.mem_append_right _ (Option.mem_toList.2 hfound))
    rw [hread] at hsame
    have hread' : s'.files.readFile s'.current p = .ok content := by
      cases hfile : s'.files.readFile s'.current p with
      | error e => simp [hfile, Except.toOption] at hsame
      | ok bytes =>
        rw [hfile] at hsame
        cases hsame
        rfl
    rw [hfound]
    unfold documentAt
    dsimp only
    rw [hread, hread']

/-- Relative paths are seen from the same directory again. -/
theorem normalized_rootPath (h : (s.perform (gather inv)).1 = .ok c)
    (hk : Keeps s.files.entryAt s'.files.entryAt) (hcurrent : s'.current = s.current)
    (hdirectory : ∃ d, s.files.entryAt s.current = some (.folder d)) :
    normalized s' (rootPath s'.current (located inv s))
      = normalized s (rootPath s.current (located inv s)) := by
  rw [hcurrent]
  unfold rootPath
  cases hup : (located inv s).bind Path.parent? with
  | none => exact normalized_kept hk hcurrent (walk_current hdirectory)
  | some up =>
    obtain ⟨p, hfound, hup⟩ := Option.bind_eq_some_iff.1 hup
    rcases readable_of_gather h with ⟨hnone, -⟩ | ⟨p', content, hfound', hread⟩
    · rw [hnone] at hfound
      cases hfound
    · rw [hfound] at hfound'
      cases hfound'
      have habsolute := isAbsolute_of_mem_sought (List.mem_of_find?_eq_some hfound)
      obtain ⟨place, hwalk⟩ := FileTree.walk_parent habsolute hread hup
      exact normalized_kept hk hcurrent hwalk

/-- From the same files the same is gathered again, but for the name of the
file. -/
theorem gather_again (h : (s.perform (gather inv)).1 = .ok c) (hkept : Kept inv s s')
    (hk : Keeps s.files.entryAt s'.files.entryAt) (hcurrent : s'.current = s.current)
    (hdirectory : ∃ d, s.files.entryAt s.current = some (.folder d)) :
    ∃ file, (s'.perform (gather inv)).1 = .ok { c with file } := by
  have hlocated := located_of_gather h hkept hcurrent
  have hdocument := documentAt_of_gather h hkept
  have hroot := normalized_rootPath h hk hcurrent hdirectory
  rw [perform_gather] at h ⊢
  rw [hlocated, hdocument]
  split at h
  · cases h
  · next hasked =>
    rw [if_neg hasked]
    cases hd : documentAt s (located inv s) with
    | error f =>
      rw [hd] at h
      cases h
    | ok document =>
      rw [hd] at h
      cases h
      refine ⟨(located inv s).map (normalized s'), ?_⟩
      show Except.ok (gatheredFrom inv s' (located inv s) document) = _
      unfold gatheredFrom
      rw [hroot]

/-! ## §4. Loading again. -/

/-- A configuration is loaded if what is gathered has no problems. -/
theorem load_eq_ok_iff : (s.perform (load inv)).1 = .ok c
    ↔ ∃ c', (s.perform (gather inv)).1 = .ok c' ∧ (checked s c').diagnostics = []
      ∧ c = { c' with settings := checked s c' } := by
  rw [perform_load_eq]
  cases (s.perform (gather inv)).1 with
  | error f => simp [Except.bind]
  | ok c' =>
    simp only [Except.bind, check]
    constructor
    · intro h
      split at h
      · next hnone =>
        cases h
        exact ⟨c', rfl, hnone, rfl⟩
      · cases h
    · rintro ⟨c'', hc'', hnone, rfl⟩
      cases hc''
      rw [hnone]
      rfl

/-- The directory of the assets is normalized as it was. -/
theorem normalized_webDir {p : Path} {web : Location} (hp : p.isAbsolute = true)
    (hk : Keeps s.files.entryAt s'.files.entryAt) (hcurrent : s'.current = s.current)
    (h : s.files.resolve .target s.current (normalized s p) = .ok (.folder web)) :
    normalized s' p = normalized s p := by
  have hwalk : walk s.files.entryAt .target linkLimit (p.start s.current) p.steps
      = .ok (.folder web) := by
    unfold normalized at h
    cases hq : s.files.canonical? s.current p with
    | some q =>
      rw [hq] at h
      exact FileTree.folder_of_canonical? hp hq (.refl _) (fun hl => hl) h
    | none =>
      rw [hq] at h
      dsimp only at h
      rw [if_pos hp] at h
      unfold FileTree.resolve at h
      split at h
      · cases h
      · exact h
  exact normalized_kept hk hcurrent hwalk

/-- The output directory is normalized as it was, or to the path of its place if
it was missing. -/
theorem normalized_outputDir {p : Path} {made : FileTree} {landing : Location}
    (hp : p.isAbsolute = true) (hg : FileTree.Grown made s.files)
    (he : Evolves made.entryAt s'.files.entryAt) (hcurrent : s'.current = s.current)
    (h : made.resolve .target s.current (normalized s p) = .ok (.folder landing)) :
    normalized s' p = normalized s p
      ∨ s'.files.canonical? s.current (normalized s p) = some (normalized s' p)
        ∧ normalized s' p = Location.path landing
        ∧ (Location.path landing).bytes.length < pathLimit := by
  cases hq : s.files.canonical? s.current p with
  | some q =>
    have hnormalized : normalized s p = q := by
      unfold normalized
      rw [hq]
    rw [hnormalized] at h
    -- what was there was canonical from the beginning
    have hwalk := FileTree.folder_of_canonical? hp hq hg.evolves
      (fun {way target} hl => Grows.of_link (hl ▸ hg way)) h
    exact .inl (normalized_kept (hg.evolves.trans he).toKeeps hcurrent hwalk)
  | none =>
    have hnormalized : normalized s p = p := by
      unfold normalized
      rw [hq]
      exact if_pos hp
    rw [hnormalized] at h ⊢
    have hwalk : walk s'.files.entryAt .target linkLimit (p.start s.current) p.steps
        = .ok (.folder landing) := by
      unfold FileTree.resolve at h
      split at h
      · cases h
      · exact walk_keeps he.toKeeps h
    cases hq' : s'.files.canonical? s.current p with
    | some q =>
      obtain ⟨rfl, hlength⟩ := FileTree.canonical?_of_folder hp hwalk hq'
      have hagain : normalized s' p = Location.path landing := by
        unfold normalized
        rw [hcurrent, hq']
      exact .inr ⟨by rw [hagain], hagain, hlength⟩
    | none =>
      refine .inl ?_
      unfold normalized
      rw [hcurrent, hq']
      exact if_pos hp

/-- The path of a place beside the assets does not seem to lie among them. -/
theorem not_startsWith_webDir {p : Path} {web landing : Location} (hp : p.isAbsolute = true)
    (hs : Solid s.files.entryAt landing)
    (hweb : s.files.resolve .target s.current p = .ok (.folder web))
    (hapart : (Location.path landing).startsWith (Location.path web) = false) :
    (Location.path landing).startsWith p = false := by
  rw [Bool.eq_false_iff]
  intro hstarts
  unfold Path.startsWith at hstarts
  rw [List.isPrefixOf_iff_prefix, Location.components_path, Path.components, if_pos hp,
    List.cons_prefix_cons, List.prefix_iff_eq_take] at hstarts
  -- then the path spells a place on the way to the other one
  let front := landing.take ((Path.splitSlash p.bytes).filterMap Path.Component.ofPiece).length
  have hfront : front <+: landing := List.take_prefix _ _
  have hspells : s.files.Spells p front := by
    refine ⟨?_, fun way hway target hl => ?_⟩
    · rw [Location.components_path, Path.components, if_pos hp, hstarts.2]
      exact congrArg _ List.map_take.symm
    · by_cases hne : way = []
      · subst hne
        cases hl
      · obtain ⟨d, hd⟩ := hs way (hway.trans hfront) hne
        rw [hd] at hl
        cases hl
  rw [hspells.resolve_eq hweb, Bool.eq_false_iff] at hapart
  exact hapart ((Location.startsWith_path front landing).2 hfront)

/-- After files have been written elsewhere the same configuration is loaded, but
for the spelling of an output directory that was missing. -/
theorem load_again {made : FileTree} {web landing : Location}
    (h : (s.perform (load inv)).1 = .ok c) (hkept : Kept inv s s')
    (hcurrent : s'.current = s.current)
    (hdirectory : ∃ d, s.files.entryAt s.current = some (.folder d))
    (hweb : s.files.resolve .target s.current c.settings.webDir = .ok (.folder web))
    (hg : FileTree.Grown made s.files) (he : Evolves made.entryAt s'.files.entryAt)
    (hlands : made.resolve .target s.current c.settings.outputDir = .ok (.folder landing))
    (hapart : ∀ q, s'.files.canonical? s.current c.settings.outputDir = some q →
      q.startsWith (Location.path web) = false) :
    ∃ c' outputDir, (s'.perform (load inv)).1 = .ok c'
      ∧ c'.settings = { c.settings with outputDir }
      ∧ (outputDir = c.settings.outputDir
        ∨ s'.files.canonical? s.current c.settings.outputDir = some outputDir
          ∧ outputDir = Location.path landing
          ∧ (Location.path landing).bytes.length < pathLimit) := by
  have hevolves := hg.evolves.trans he
  obtain ⟨c₀, hgather, hnone, rfl⟩ := load_eq_ok_iff.1 h
  obtain ⟨file, hagain⟩ := gather_again hgather hkept hevolves.toKeeps hcurrent hdirectory
  have hroot : c₀.root.isAbsolute = true := (observes_gather inv).outcome s c₀ hgather
  have hwebDir := normalized_webDir (isAbsolute_join hroot) hevolves.toKeeps hcurrent hweb
  have houtputDir := normalized_outputDir (isAbsolute_join hroot) hg he hcurrent hlands
  have hchecked : checked s' { c₀ with file } = { checked s c₀ with
      outputDir := normalized s' (c₀.root.join c₀.settings.outputDir) } := by
    unfold checked
    dsimp only
    rw [hwebDir]
  have hdiagnostics : (checked s' { c₀ with file }).diagnostics = [] := by
    rw [hchecked]
    rcases houtputDir with hsame | ⟨hcanonical, hplace, -⟩
    · rw [hsame]
      exact hnone
    · -- the canonical path of the output directory does not begin with that of the assets
      have hsolid : Solid made.entryAt landing :=
        FileTree.resolve_holds (isAbsolute_normalized _ _) hlands
      have happart := hapart _ hcanonical
      rw [hplace] at happart ⊢
      have hbeside := not_startsWith_webDir (isAbsolute_normalized _ _) (hsolid.keeps he.toKeeps)
        (FileTree.resolve_keeps hevolves.toKeeps (hcurrent ▸ hweb)) happart
      simp only [Settings.diagnostics, List.append_eq_nil_iff] at hnone ⊢
      exact ⟨hnone.1, if_neg (Bool.eq_false_iff.1 hbeside)⟩
  exact ⟨_, normalized s' (c₀.root.join c₀.settings.outputDir),
    load_eq_ok_iff.2 ⟨_, hagain, hdiagnostics, rfl⟩, hchecked, houtputDir⟩

end Configuration

end AssetEmbed
