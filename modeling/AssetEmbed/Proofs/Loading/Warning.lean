/-
  AssetEmbed.Proofs.Loading.Warning — unknown keys of the configuration file, and the run.

  Loading looks into no file but the configuration file, and of its unknown keys
  it tells and nothing else.  So with more of them the same is loaded, and only
  the warning is longer.

  Main results:
    * `SameShape.canonical?_eq` — a path is as canonical as the shape of the tree
      makes it.
    * `load_of_same_settings`   — what is loaded is a matter of the shape and of
      the settings in the file.
    * `events_load`             — what is told while loading.
    * `unknown_keys_exact`      — unknown keys change the warning alone.
-/
import AssetEmbed.Proofs.Loading.Ascent
import AssetEmbed.Proofs.Loading.Unknown

namespace AssetEmbed

/-! ## §1. Trees of the same shape. -/

section
variable {look look' : Location → Option Entry} {purpose : Purpose} {links : Nat}
  {place parent : Location} {name : EntryName} {steps : List Step} {content : List UInt8}

/-- A walk to a file leads to a file as long as files are kept as such. -/
theorem walk_file_evolves (he : Evolves look look')
    (h : walk look purpose links place steps = .ok (.file parent name content)) :
    ∃ content', walk look' purpose links place steps = .ok (.file parent name content') := by
  obtain ⟨-, hfile⟩ := walk_holds stable_true trivial h
  obtain ⟨content', hfile'⟩ := he.file hfile
  exact ⟨content', walk_evolves he (.file parent name content) hfile' h⟩

end

namespace FileTree

variable {t t' : FileTree} {current : Location} {p : Path}

/-- Whether two trees are the same but for the bytes in their files. -/
structure SameShape (t t' : FileTree) : Prop where
  forth : Evolves t.entryAt t'.entryAt
  back : Evolves t'.entryAt t.entryAt

theorem near_evolves (he : Evolves t.entryAt t'.entryAt) :
    Evolves t.nearEntryAt t'.nearEntryAt where
  folder {way d} hd := by
    rcases nearEntryAt_cases way with hnear | hfar
    · rw [hnear] at hd ⊢
      exact he.folder hd
    · rw [hfar] at hd
      cases hd
  link {way target} hl := by
    rcases nearEntryAt_cases way with hnear | hfar
    · rw [hnear] at hl ⊢
      exact he.link hl
    · rw [hfar] at hl
      cases hl
  file {way content} hf := by
    rcases nearEntryAt_cases way with hnear | hfar
    · rw [hnear] at hf ⊢
      exact he.file hf
    · rw [hfar] at hf
      cases hf

theorem isFile_evolves (he : Evolves t.entryAt t'.entryAt) (h : t.isFile current p = true) :
    t'.isFile current p = true := by
  unfold isFile resolve at h ⊢
  split at h
  · next parent name content hresolve =>
    split at hresolve
    · cases hresolve
    · obtain ⟨content', hwalk⟩ := walk_file_evolves he hresolve
      rw [hwalk]
  · cases h

theorem isDirectory_evolves (he : Evolves t.entryAt t'.entryAt)
    (h : t.isDirectory current p = true) : t'.isDirectory current p = true := by
  unfold isDirectory at h ⊢
  split at h
  · next hresolve => rw [resolve_keeps he.toKeeps hresolve]
  · cases h

theorem canonical?_evolves (he : Evolves t.entryAt t'.entryAt) {q : Path}
    (h : t.canonical? current p = some q) : t'.canonical? current p = some q := by
  unfold canonical? at h ⊢
  split at h
  · cases h
  · next hp =>
    rw [if_neg hp]
    split at h
    · next hwalk => rw [walk_keeps (near_evolves he).toKeeps hwalk, ← h]
    · next hwalk =>
      obtain ⟨content', hwalk'⟩ := walk_file_evolves (near_evolves he) hwalk
      rw [hwalk', ← h]
    · cases h

theorem SameShape.isFile_eq (h : SameShape t t') : t'.isFile current p = t.isFile current p :=
  Bool.eq_iff_iff.2 ⟨isFile_evolves h.back, isFile_evolves h.forth⟩

theorem SameShape.isDirectory_eq (h : SameShape t t') :
    t'.isDirectory current p = t.isDirectory current p :=
  Bool.eq_iff_iff.2 ⟨isDirectory_evolves h.back, isDirectory_evolves h.forth⟩

/-- What a path is canonically does not depend on the bytes in files. -/
theorem SameShape.canonical?_eq (h : SameShape t t') :
    t'.canonical? current p = t.canonical? current p :=
  Option.ext fun _ => ⟨canonical?_evolves h.back, canonical?_evolves h.forth⟩

theorem entryAt_putFile_top (t : FileTree) (name : EntryName) (content : List UInt8)
    (first : EntryName) (rest : Location) :
    (t.putFile [] name content).entryAt (first :: rest)
      = if first = name then if rest = [] then some (.file content) else none
        else t.entryAt (first :: rest) := by
  show (t.top.put name (.file content)).entryAt (first :: rest) = _
  rw [Directory.entryAt_cons, Directory.find?_put]
  split
  · rfl
  · exact (Directory.entryAt_cons t.top first rest).symm

theorem evolves_putFile_top (t : FileTree) (name : EntryName) (before after : List UInt8) :
    Evolves (t.putFile [] name before).entryAt (t.putFile [] name after).entryAt := by
  -- away from the file and from the top the trees are the same
  have hsame : ∀ first rest, first ≠ name → (t.putFile [] name after).entryAt (first :: rest)
      = (t.putFile [] name before).entryAt (first :: rest) := by
    intro first rest hname
    rw [entryAt_putFile_top, entryAt_putFile_top, if_neg hname, if_neg hname]
  refine ⟨⟨fun {way d} h => ?_, fun {way target} h => ?_⟩, fun {way content} h => ?_⟩
  all_goals rcases way with _ | ⟨first, rest⟩
  · exact ⟨_, rfl⟩
  · by_cases hname : first = name
    · rw [entryAt_putFile_top, if_pos hname] at h
      split at h <;> cases h
    · exact ⟨d, (hsame first rest hname).trans h⟩
  · cases h
  · by_cases hname : first = name
    · rw [entryAt_putFile_top, if_pos hname] at h
      split at h <;> cases h
    · exact (hsame first rest hname).trans h
  · cases h
  · by_cases hname : first = name
    · rw [entryAt_putFile_top, if_pos hname] at h
      split at h
      · next hrest => exact ⟨after, by rw [entryAt_putFile_top, if_pos hname, if_pos hrest]⟩
      · cases h
    · exact ⟨content, (hsame first rest hname).trans h⟩

/-- A file can be given other bytes. -/
theorem sameShape_putFile_top (t : FileTree) (name : EntryName) (before after : List UInt8) :
    SameShape (t.putFile [] name before) (t.putFile [] name after) :=
  ⟨evolves_putFile_top t name before after, evolves_putFile_top t name after before⟩

end FileTree

/-! ## §2. What is loaded. -/

namespace Configuration

open Machine Document

variable {inv : CommandLine.Invocation} {s s' : Machine} {p : Path} {text : String}
  {t : Toml.Table}

theorem normalized_sameShape (h : FileTree.SameShape s.files s'.files)
    (hcurrent : s'.current = s.current) (p : Path) : normalized s' p = normalized s p := by
  unfold normalized
  rw [hcurrent, h.canonical?_eq]

theorem located_sameShape (h : FileTree.SameShape s.files s'.files)
    (hcurrent : s'.current = s.current) : located inv s' = located inv s := by
  have hhit : isHit inv s' = isHit inv s := by
    funext p
    unfold isHit FileTree.isPresent
    rw [hcurrent, h.isFile_eq, h.isDirectory_eq]
  unfold located
  rw [hcurrent, hhit]

theorem decode_encode (p : Path) (hparse : Toml.parse text = some t) :
    decode p (Utf8.encode text) = (ofTable t).elim (.error .configMalformed) .ok := by
  unfold decode
  rw [Utf8.decode?_encode]
  dsimp only
  rw [hparse, Option.bind_some]
  cases ofTable t <;> rfl

/-- The settings that a file with a document gives. -/
theorem settingsAt_eq (hread : s.files.readFile s.current p = .ok (Utf8.encode text))
    (hparse : Toml.parse text = some t) :
    (documentAt s (some p)).map (·.overrides)
      = ((ofTable t).map (·.overrides)).elim (.error (.ofCause .configMalformed)) .ok := by
  unfold documentAt
  dsimp only
  rw [hread]
  dsimp only
  rw [decode_encode p hparse]
  cases ofTable t <;> rfl

/-- Of a document nothing but the settings is gathered. -/
theorem map_gatheredFrom (inv : CommandLine.Invocation) (s : Machine) (found : Option Path)
    (answer : Except Failure Document) :
    answer.map (gatheredFrom inv s found)
      = (answer.map (·.overrides)).map fun overrides => gatheredFrom inv s found { overrides } := by
  cases answer <;> rfl

/-- What is loaded is a matter of the shape of the tree and of the settings in
the configuration file. -/
theorem load_of_same_settings (h : FileTree.SameShape s.files s'.files)
    (hcurrent : s'.current = s.current)
    (hsettings : (documentAt s' (located inv s)).map (·.overrides)
      = (documentAt s (located inv s)).map (·.overrides)) :
    (s'.perform (load inv)).1 = (s.perform (load inv)).1 := by
  have hnormalized : normalized s' = normalized s := funext (normalized_sameShape h hcurrent)
  have hfrom : ∀ found, gatheredFrom inv s' found = gatheredFrom inv s found := by
    intro found
    unfold gatheredFrom
    rw [hnormalized, hcurrent]
  have hchecked : checked s' = checked s := by
    unfold checked
    rw [hnormalized]
  have hgather : (s'.perform (gather inv)).1 = (s.perform (gather inv)).1 := by
    rw [perform_gather, perform_gather, located_sameShape h hcurrent, map_gatheredFrom,
      map_gatheredFrom, hsettings, hfrom]
  rw [perform_load_eq, perform_load_eq, hgather, hchecked]

/-! ## §3. What is told. -/

/-- What is told of unknown keys: nothing without one, and otherwise a message
and a line for each. -/
def warning (p : Path) : List String → List Event
  | [] => []
  | unknown =>
    .log (.log "warning" ("unknown fields in " ++ p.display ++ ", ignoring:"))
      :: unknown.map fun key => .line ("- " ++ key)

/-- What is told while a configuration file is loaded, if it says something. -/
def told (s : Machine) (p : Path) : Option Document → List Event
  | none => []
  | some document =>
    warning p document.unknown ++ [.log (.debug "config" (fileMessage (some (normalized s p))))]

theorem warning_eq_nil_iff {unknown : List String} : warning p unknown = [] ↔ unknown = [] := by
  cases unknown <;> simp [warning]

theorem perform_forM_tell {α : Type} (event : α → Event) (xs : List α) (s : Machine) :
    s.perform (xs.forM fun x => Host.tell (event x))
      = (.ok (), { s with events := s.events ++ xs.map event }) := by
  induction xs generalizing s with
  | nil =>
    rw [List.map_nil, List.append_nil]
    rfl
  | cons x rest ih =>
    have htell : s.perform (Host.tell (event x))
        = (.ok (), { s with events := s.events ++ [event x] }) := rfl
    show s.perform (Host.tell (event x) >>= fun _ => rest.forM fun x => Host.tell (event x)) = _
    rw [perform_bind, htell]
    dsimp only
    rw [ih]
    simp

theorem perform_warnUnknown (p : Path) (unknown : List String) (s : Machine) :
    s.perform (warnUnknown p unknown)
      = (.ok (), { s with events := s.events ++ warning p unknown }) := by
  unfold warnUnknown
  cases unknown with
  | nil =>
    rw [warning, List.append_nil]
    rfl
  | cons key rest =>
    have hmessage : ∀ message, s.perform (logMessage "warning" message)
        = (.ok (), { s with events := s.events ++ [.log (.log "warning" message)] }) :=
      fun _ => rfl
    have hsome : (!(key :: rest).isEmpty) = true := rfl
    rw [if_pos hsome, perform_bind, hmessage]
    dsimp only
    rw [perform_forM_tell]
    simp [warning]

/-- A file that says something is read with a warning. -/
theorem perform_readDocument_ok {bytes : List UInt8} {document : Document}
    (hread : s.files.readFile s.current p = .ok bytes) (hdecode : decode p bytes = .ok document) :
    s.perform (readDocument p)
      = (.ok document, { s with events := s.events ++ warning p document.unknown }) := by
  have hask : s.perform (Host.readFile p) = (.ok (s.files.readFile s.current p), s) := rfl
  have htaken : s.perform (Failure.ofExcept (decode p bytes)) = (.ok document, s) := by
    rw [hdecode]
    rfl
  unfold readDocument
  rw [perform_bind, hask, hread]
  dsimp only
  rw [perform_bind, htaken]
  dsimp only
  rw [perform_bind, perform_warnUnknown]
  rfl

/-- A file that says nothing is read without a word. -/
theorem perform_readDocument_error {bytes : List UInt8} {cause : Cause}
    (hread : s.files.readFile s.current p = .ok bytes) (hdecode : decode p bytes = .error cause) :
    s.perform (readDocument p) = (.error (.ofCause cause), s) := by
  have hask : s.perform (Host.readFile p) = (.ok (s.files.readFile s.current p), s) := rfl
  have htaken : s.perform (Failure.ofExcept (decode p bytes))
      = ((.error (.ofCause cause) : Except Failure Document), s) := by
    rw [hdecode]
    rfl
  unfold readDocument
  rw [perform_bind, hask, hread]
  dsimp only
  rw [perform_bind, htaken]

/-- What is settled is told in one message. -/
theorem events_settle (inv : CommandLine.Invocation) (found : Option Path) (document : Document)
    (s : Machine) :
    (s.perform (settle inv (Location.path s.current) found document)).2.events
      = s.events ++ [.log (.debug "config" (fileMessage (found.map (normalized s))))] := by
  have hmessage : ∀ message, s.perform (debugMessage "config" message)
      = (.ok (), { s with events := s.events ++ [.log (.debug "config" message)] }) :=
    fun _ => rfl
  unfold settle
  rw [perform_bind, perform_mapM_normalize]
  dsimp only
  rw [perform_bind, hmessage]
  dsimp only
  rw [perform_bind, perform_normalize]
  rfl

/-- Gathering goes on from the document, once the file is found. -/
theorem perform_gather_found (hfound : Discovers inv s (some p)) :
    s.perform (gather inv) = s.perform (readDocument p >>=
      settle inv (Location.path s.current) (some p)) := by
  obtain ⟨hlocated, -⟩ := discovers_iff.1 hfound
  have hcurrent : s.perform Host.workingDirectory = (.ok (Location.path s.current), s) := rfl
  unfold gather
  rw [perform_bind, hcurrent]
  show s.perform (locate (Location.path s.current) (nameOf inv) >>= fun found => _) = _
  rw [perform_bind, perform_locate, hlocated]
  rfl

/-- Once the settings have been gathered nothing more is told. -/
theorem state_load (inv : CommandLine.Invocation) (s : Machine) :
    (s.perform (load inv)).2 = (s.perform (gather inv)).2 := by
  unfold load
  rw [perform_bind]
  cases s.perform (gather inv) with
  | mk outcome next =>
    cases outcome with
    | error f => rfl
    | ok c =>
      dsimp only
      rw [perform_bind, perform_normalizePaths]
      dsimp only
      cases check { c with settings := checked next c } <;> rfl

/-- What loading a configuration file tells. -/
theorem events_load (hfound : Discovers inv s (some p))
    (hread : s.files.readFile s.current p = .ok (Utf8.encode text))
    (hparse : Toml.parse text = some t) :
    (s.perform (load inv)).2.events = s.events ++ told s p (ofTable t) := by
  rw [state_load, perform_gather_found hfound, perform_bind]
  have hdecode := decode_encode p hparse
  cases htable : ofTable t with
  | none =>
    rw [htable] at hdecode
    rw [perform_readDocument_error hread hdecode]
    simp [told]
  | some document =>
    rw [htable] at hdecode
    rw [perform_readDocument_ok hread hdecode]
    -- the warning stands before the message about the file
    have hsettle := events_settle inv (some p) document
      { s with events := s.events ++ warning p document.unknown }
    refine hsettle.trans ?_
    rw [told, List.append_assoc]
    rfl

/-! ## §4. Documents with unknown keys. -/

/-- A document with more unknown keys has the same settings, or is refused as
the other is.  A run is warned of each unknown key under the keys on the way to
it, and of nothing else.  The same is loaded from a file with either document,
wherever it is found, and what is told differs in the warning alone, which there
is just if a key is unknown. -/
theorem unknown_keys_exact {small large : String} {t t' top inside : Toml.Table}
    (hsmall : Toml.parse small = some t) (hlarge : Toml.parse large = some t')
    (hextends : Extends t t' top inside) :
    (ofTable t').map (·.overrides) = (ofTable t).map (·.overrides)
    ∧ (∀ d d', ofTable t = some d → ofTable t' = some d' →
      Reports t d.unknown ∧ Reports t' d'.unknown
        ∧ d'.unknown.Perm
          (d.unknown ++ (top.map Prod.fst ++ inside.map fun entry => inSection entry.1)))
    ∧ ∀ (inv : CommandLine.Invocation) (s s' : Machine) (p : Path), Discovers inv s (some p) →
      FileTree.SameShape s.files s'.files → s'.current = s.current →
      s.files.readFile s.current p = .ok (Utf8.encode small) →
      s'.files.readFile s'.current p = .ok (Utf8.encode large) →
      (s'.perform (load inv)).1 = (s.perform (load inv)).1
        ∧ (s.perform (load inv)).2.events = s.events ++ told s p (ofTable t)
        ∧ (s'.perform (load inv)).2.events = s'.events ++ told s p (ofTable t')
        ∧ ∀ d', ofTable t' = some d' →
          (warning p d'.unknown ≠ [] ↔ ∃ way, t'.Reaches way ∧ Unknown way) := by
  have ht := Toml.distinct_parse hsmall
  have ht' := Toml.distinct_parse hlarge
  obtain ⟨entries, entries', hsection, hsection', -⟩ := hextends.within
  have hsettings := hextends.overrides_eq ht ht'
  refine ⟨hsettings, fun d d' hd hd' => ⟨reports_unknown ht hsection hd,
    reports_unknown ht' hsection' hd', hextends.unknown_perm ht ht' hd hd'⟩, ?_⟩
  intro inv s s' p hfound hshape hcurrent hread hread'
  obtain ⟨hlocated, hasked⟩ := discovers_iff.1 hfound
  have hfound' : Discovers inv s' (some p) :=
    discovers_iff.2 ⟨(located_sameShape hshape hcurrent).trans hlocated, hasked⟩
  refine ⟨load_of_same_settings hshape hcurrent ?_, events_load hfound hread hsmall, ?_,
    fun d' hd' => ?_⟩
  · rw [hlocated, settingsAt_eq hread hsmall, settingsAt_eq hread' hlarge, hsettings]
  · rw [events_load hfound' hread' hlarge]
    unfold told
    rw [normalized_sameShape hshape hcurrent]
  · rw [ne_eq, warning_eq_nil_iff, (reports_unknown ht' hsection' hd').eq_nil_iff]
    simp only [not_forall, not_not, exists_prop]

/-- A document without unknown keys. -/
def plainText : String := "[bundle]\nbytes_per_line = 4\n"

def plainTable : Toml.Table := [(sectionKey, .table .header [("bytes_per_line", .integer 4)])]

/-- The same document with unknown keys around it and in it. -/
def annotatedText : String :=
  "config_path = \"x\"\n[bundle]\nroot = [1, \x7b a = true \x7d]\nbytes_per_line = 4\n"
    ++ "[server.tls]\nport = 80\n"

def notesAround : Toml.Table :=
  [("config_path", .text "x"),
    ("server", .table .implied [("tls", .table .header [("port", .integer 80)])])]

def notesInside : Toml.Table := [("root", .array [.integer 1, .table .inline [("a", .boolean)]])]

def annotatedTable : Toml.Table :=
  [("config_path", .text "x"),
    (sectionKey, .table .header (notesInside ++ [("bytes_per_line", .integer 4)])),
    ("server", .table .implied [("tls", .table .header [("port", .integer 80)])])]

theorem extends_annotated : Extends plainTable annotatedTable notesAround notesInside where
  beside := .refl _
  within := ⟨_, _, .present (List.mem_singleton_self _),
    .present (List.mem_cons_of_mem _ List.mem_cons_self), List.perm_append_comm⟩
  unknown := by
    intro entry hentry field
    rw [List.mem_singleton.1 hentry]
    cases field <;> decide

/-- A machine that stands beside a configuration file. -/
def siteWith (text : String) : Machine :=
  .start (FileTree.empty.putFile [] configName (Utf8.encode text)) []

/-- Of the keys around the section and in it a run is warned, but not of those
below them, and it loads the same. -/
theorem unknown_keys_exact_annotated :
    Toml.parse plainText = some plainTable ∧ Toml.parse annotatedText = some annotatedTable
      ∧ ((siteWith annotatedText).perform (load (writingTo (.ofString "out")))).1
        = ((siteWith plainText).perform (load (writingTo (.ofString "out")))).1
      ∧ ((siteWith plainText).perform (load (writingTo (.ofString "out")))).2.events
        = [.log (.debug "config" "using /webembed.toml")]
      ∧ ((siteWith annotatedText).perform (load (writingTo (.ofString "out")))).2.events
        = [.log (.log "warning" "unknown fields in /webembed.toml, ignoring:"),
          .line "- config_path", .line "- bundle.root", .line "- server",
          .log (.debug "config" "using /webembed.toml")] := by
  have hplain : Toml.parse plainText = some plainTable := rfl
  have hannotated : Toml.parse annotatedText = some annotatedTable := rfl
  have hfound : Discovers (writingTo (.ofString "out")) (siteWith plainText)
      (some (.ofString "/webembed.toml")) := discovers_iff.2 ⟨by decide +kernel, by decide⟩
  obtain ⟨-, -, hload⟩ := unknown_keys_exact hplain hannotated extends_annotated
  obtain ⟨hsame, hbefore, hafter, -⟩ := hload _ _ (siteWith annotatedText) _ hfound
    (FileTree.sameShape_putFile_top _ _ _ _) rfl (by decide +kernel) (by decide +kernel)
  refine ⟨hplain, hannotated, hsame, hbefore.trans ?_, hafter.trans ?_⟩
  · decide +kernel
  · decide +kernel

end Configuration

end AssetEmbed
