/-
  AssetEmbed.Proofs.Loading.Ascent — looking for the configuration upwards.

  Going up from a path takes one component away each time, so it comes to an
  end, and the search has looked everywhere when it does.  What is found does
  not depend on how far below the search has begun, and from then on only
  absolute paths are used, which lead to the same place from everywhere.

  Main results:
    * `exists_components_eq_concat` — the components of a path and its parent.
    * `ancestors_eq`     — all directories above a path are gone through.
    * `finds_candidates` — the nearest regular file is found.
    * `located_below`    — the same file is found from further below.
    * `load_from_below`  — and so the same configuration is loaded.
-/
import AssetEmbed.Proofs.Loading.Layering

namespace AssetEmbed

open Machine

/-! ## §1. The components of a parent. -/

namespace Path

theorem ofPiece_eq_none_iff {piece : Name} :
    Component.ofPiece piece = none ↔ isIdle piece = true := by
  rw [isIdle, Bool.or_eq_true, beq_iff_eq, beq_iff_eq]
  unfold Component.ofPiece
  split
  · next h => exact iff_of_true rfl h
  · next h => split <;> exact iff_of_false (by simp) h

theorem trimEnd_concat_of_isIdle {pieces : List Name} {piece : Name} (h : isIdle piece = true) :
    trimEnd (pieces ++ [piece]) = trimEnd pieces := by
  simp [trimEnd, h]

/-- What is cut off at the end stands for no component. -/
theorem filterMap_trimEnd (pieces : List Name) :
    (trimEnd pieces).filterMap Component.ofPiece = pieces.filterMap Component.ofPiece := by
  induction pieces using List.reverseRecOn with
  | nil => rfl
  | append_singleton front piece ih =>
    cases hidle : isIdle piece with
    | false => rw [trimEnd_concat hidle]
    | true =>
      rw [trimEnd_concat_of_isIdle hidle, ih, List.filterMap_append,
        List.filterMap_cons_none (ofPiece_eq_none_iff.2 hidle), List.filterMap_nil, List.append_nil]

/-- What is left after that ends with a component. -/
theorem exists_trimEnd_eq_concat {pieces : List Name} (h : trimEnd pieces ≠ []) :
    ∃ front last c, trimEnd pieces = front ++ [last] ∧ Component.ofPiece last = some c := by
  induction pieces using List.reverseRecOn with
  | nil => exact absurd rfl h
  | append_singleton front piece ih =>
    cases hidle : isIdle piece with
    | false =>
      have hsome : Component.ofPiece piece ≠ none := fun hnone => by
        rw [ofPiece_eq_none_iff.1 hnone] at hidle
        cases hidle
      obtain ⟨c, hc⟩ := Option.ne_none_iff_exists'.1 hsome
      exact ⟨front, piece, c, trimEnd_concat hidle, hc⟩
    | true =>
      rw [trimEnd_concat_of_isIdle hidle] at h ⊢
      exact ih h

theorem mem_of_mem_trimEnd {pieces front : List Name} {last piece : Name}
    (h : trimEnd pieces = front ++ [last]) (hp : piece ∈ trimEnd front) : piece ∈ pieces := by
  have hfront : piece ∈ front := (trimEnd_isPrefix front).subset hp
  exact (trimEnd_isPrefix pieces).subset (h ▸ List.mem_append_left [last] hfront)

/-- The components of a path that is put together from pieces after a separator. -/
theorem components_slash_joinSlash {pieces : List Name} (h : ∀ piece ∈ pieces, slash ∉ piece) :
    components ⟨slash :: joinSlash pieces⟩ = .root :: pieces.filterMap Component.ofPiece := by
  have habsolute : isAbsolute ⟨slash :: joinSlash pieces⟩ = true := rfl
  rw [components, if_pos habsolute, splitSlash_slash]
  cases pieces with
  | nil => rfl
  | cons piece rest => rw [splitSlash_joinSlash (List.cons_ne_nil piece rest) h]; rfl

/-- The component of the first piece of a relative path. -/
def Component.ofFirst (piece : Name) : List Component :=
  if piece = dot then [.current] else (Component.ofPiece piece).toList

theorem components_of_relative {p : Path} {piece : Name} {pieces : List Name}
    (hp : p.isAbsolute = false) (h : splitSlash p.bytes = piece :: pieces) :
    p.components = Component.ofFirst piece ++ pieces.filterMap Component.ofPiece := by
  rw [components, if_neg (by simp [hp]), h]
  rfl

/-- The components of a path that is put together from pieces. -/
theorem components_joinSlash {b : UInt8} {first : Name} {pieces : List Name} (hb : b ≠ slash)
    (h : ∀ piece ∈ (b :: first) :: pieces, slash ∉ piece) :
    components ⟨joinSlash ((b :: first) :: pieces)⟩
      = Component.ofFirst (b :: first) ++ pieces.filterMap Component.ofPiece := by
  have hhead : (joinSlash ((b :: first) :: pieces)).head? = some b := by cases pieces <;> rfl
  refine components_of_relative ?_ (splitSlash_joinSlash (List.cons_ne_nil _ _) h)
  rw [isAbsolute, hhead]
  simpa using hb

/-- The first piece of a relative path is a component. -/
theorem exists_ofFirst {piece : Name} (h : piece ≠ []) : ∃ c, Component.ofFirst piece = [c] := by
  unfold Component.ofFirst
  split
  · exact ⟨_, rfl⟩
  · next hdot =>
    have hsome : Component.ofPiece piece ≠ none := fun hnone => by
      rw [ofPiece_eq_none_iff, isIdle, Bool.or_eq_true, beq_iff_eq, beq_iff_eq] at hnone
      exact hnone.elim h hdot
    obtain ⟨c, hc⟩ := Option.ne_none_iff_exists'.1 hsome
    exact ⟨c, by rw [hc]; rfl⟩

theorem splitSlash_of_relative {p : Path} (hp : p.isAbsolute = false) :
    p.bytes = [] ∨ ∃ b rest first pieces, p.bytes = b :: rest ∧ b ≠ slash
      ∧ splitSlash rest = first :: pieces ∧ splitSlash p.bytes = (b :: first) :: pieces := by
  cases hb : p.bytes with
  | nil => exact .inl rfl
  | cons b rest =>
    have hslash : b ≠ slash := by
      rintro rfl
      simp [isAbsolute, hb] at hp
    obtain ⟨first, pieces, hsplit⟩ := List.exists_cons_of_ne_nil (splitSlash_ne_nil rest)
    refine .inr ⟨b, rest, first, pieces, rfl, hslash, hsplit, ?_⟩
    rw [splitSlash, if_neg hslash, hsplit]

theorem parent?_components_of_absolute {p up : Path} (hp : p.isAbsolute = true)
    (h : p.parent? = some up) : ∃ c, p.components = up.components ++ [c] := by
  obtain ⟨rest, hpieces⟩ := splitSlash_of_isAbsolute hp
  have hcomponents : p.components = .root :: (splitSlash rest).filterMap Component.ofPiece := by
    rw [components, if_pos hp, hpieces]
    rfl
  unfold parent? at h
  rw [hpieces] at h
  dsimp only at h
  split at h
  · cases h
  · next hkept =>
    cases h
    obtain ⟨front, last, c, hfront, hc⟩ := exists_trimEnd_eq_concat hkept
    refine ⟨c, ?_⟩
    have hslash : ∀ piece ∈ trimEnd front, slash ∉ piece := fun piece hp =>
      slash_notMem_of_mem_splitSlash (mem_of_mem_trimEnd hfront hp)
    rw [hcomponents, ← filterMap_trimEnd, hfront, List.dropLast_concat,
      components_slash_joinSlash hslash, filterMap_trimEnd, List.filterMap_append,
      List.filterMap_cons_some hc]
    rfl

theorem parent?_components_of_relative {p up : Path} (hp : p.isAbsolute = false)
    (h : p.parent? = some up) : ∃ c, p.components = up.components ++ [c] := by
  rcases splitSlash_of_relative hp with hb | ⟨b, -, first, pieces, -, hslash, -, hpieces⟩
  · rw [parent?, hb] at h
    cases h
  · have hcomponents := components_of_relative hp hpieces
    unfold parent? at h
    rw [hpieces] at h
    dsimp only at h
    split at h
    · next hkept =>
      -- only the first piece counts
      cases h
      obtain ⟨c, hc⟩ := exists_ofFirst (List.cons_ne_nil b first)
      refine ⟨c, ?_⟩
      rw [hcomponents, ← filterMap_trimEnd, hkept, hc]
      rfl
    · next hkept =>
      cases h
      obtain ⟨front, last, c, hfront, hc⟩ := exists_trimEnd_eq_concat hkept
      have hslashes : ∀ piece ∈ (b :: first) :: trimEnd front, slash ∉ piece := by
        intro piece hp
        have hmem : piece ∈ splitSlash p.bytes := by
          rw [hpieces]
          rcases List.mem_cons.1 hp with rfl | hp
          · exact List.mem_cons_self
          · exact List.mem_cons_of_mem _ (mem_of_mem_trimEnd hfront hp)
        exact slash_notMem_of_mem_splitSlash hmem
      have hup := components_joinSlash hslash hslashes
      refine ⟨c, ?_⟩
      rw [hcomponents, ← filterMap_trimEnd, hfront, List.dropLast_concat, hup, filterMap_trimEnd,
        List.filterMap_append, List.filterMap_cons_some hc, List.append_assoc]
      rfl

/-- The components of a path are those of its parent and one more. -/
theorem exists_components_eq_concat {p up : Path} (h : p.parent? = some up) :
    ∃ c, p.components = up.components ++ [c] := by
  cases hp : p.isAbsolute with
  | true => exact parent?_components_of_absolute hp h
  | false => exact parent?_components_of_relative hp h

/-! ## §2. All directories above a path. -/

theorem length_filterMap_ofPiece_le (bytes : List UInt8) :
    ((splitSlash bytes).filterMap Component.ofPiece).length ≤ bytes.length := by
  induction bytes with
  | nil => exact Nat.le_refl 0
  | cons b bs ih =>
    rw [splitSlash, List.length_cons]
    split
    · rw [List.filterMap_cons_none (ofPiece_eq_none_iff.2 rfl)]
      omega
    · split
      · next first pieces hsplit =>
        rw [hsplit] at ih
        -- one more byte makes no more than one more piece count
        have hall := List.length_filterMap_le Component.ofPiece [b :: first]
        have hrest : (pieces.filterMap Component.ofPiece).length
            ≤ ((first :: pieces).filterMap Component.ofPiece).length :=
          ((List.sublist_cons_self first pieces).filterMap _).length_le
        rw [← List.singleton_append, List.filterMap_append, List.length_append]
        rw [List.length_singleton] at hall
        omega
      · next hnil => exact absurd hnil (splitSlash_ne_nil bs)

/-- There are no more components than bytes. -/
theorem length_components_le (p : Path) : p.components.length ≤ p.bytes.length := by
  cases hp : p.isAbsolute with
  | true =>
    cases hb : p.bytes with
    | nil => simp [isAbsolute, hb] at hp
    | cons b rest =>
      have hslash : b = slash := by simpa [isAbsolute, hb] using hp
      have hrest := length_filterMap_ofPiece_le rest
      rw [components, if_pos hp, hb, hslash, splitSlash_slash,
        List.filterMap_cons_none (ofPiece_eq_none_iff.2 rfl), List.length_cons, List.length_cons]
      omega
  | false =>
    rcases splitSlash_of_relative hp with hb | ⟨b, rest, first, pieces, hb, -, hrest, hpieces⟩
    · rw [components, if_neg (by simp [hp]), hb]
      exact Nat.le_refl 0
    · -- the first piece is one component and has a byte of its own
      obtain ⟨c, hc⟩ := exists_ofFirst (List.cons_ne_nil b first)
      have hall := length_filterMap_ofPiece_le rest
      have htail := ((List.sublist_cons_self first pieces).filterMap Component.ofPiece).length_le
      rw [hrest] at hall
      rw [components_of_relative hp hpieces, hc, hb, List.length_append, List.length_singleton,
        List.length_cons]
      omega

/-- More than enough fuel makes no difference. -/
theorem ancestorsUpTo_eq {fuel more : Nat} {p : Path} (h : p.components.length ≤ fuel)
    (hmore : fuel ≤ more) : ancestorsUpTo more p = ancestorsUpTo fuel p := by
  induction fuel generalizing p more with
  | zero =>
    -- without components there is no parent
    have hparent : p.parent? = none := by
      cases hup : p.parent? with
      | none => rfl
      | some up =>
        obtain ⟨c, hc⟩ := exists_components_eq_concat hup
        simp [hc] at h
    cases more with
    | zero => rfl
    | succ more => rw [ancestorsUpTo, ancestorsUpTo, hparent]
  | succ fuel ih =>
    obtain ⟨more, rfl⟩ : ∃ k, more = k + 1 := ⟨more - 1, by omega⟩
    rw [ancestorsUpTo, ancestorsUpTo]
    cases hup : p.parent? with
    | none => rfl
    | some up =>
      obtain ⟨c, hc⟩ := exists_components_eq_concat hup
      rw [hc, List.length_append, List.length_singleton] at h
      exact congrArg (p :: ·) (ih (by omega) (by omega))

/-- The directories above a path are its parent and those above that. -/
theorem ancestors_eq (p : Path) :
    p.ancestors = match p.parent? with
      | none => [p]
      | some up => p :: up.ancestors := by
  -- as much fuel as both have components
  have hfuel : ∀ q : Path, ∀ fuel, q.components.length ≤ fuel →
      q.ancestors = ancestorsUpTo fuel q := fun q fuel hq => by
    rcases Nat.le_total fuel q.bytes.length with h | h
    · exact ancestorsUpTo_eq hq h
    · exact (ancestorsUpTo_eq (length_components_le q) h).symm
  rw [hfuel p (p.components.length + 1) (Nat.le_succ _), ancestorsUpTo]
  cases hup : p.parent? with
  | none => rfl
  | some up =>
    obtain ⟨c, hc⟩ := exists_components_eq_concat hup
    have hle : up.components.length ≤ p.components.length := by
      rw [hc, List.length_append]
      omega
    exact congrArg (p :: ·) (hfuel up _ hle).symm

/-- Whether going up from a path comes to another one; the paths that it leaves
behind are listed nearest first. -/
inductive Ascends : Path → List Path → Path → Prop where
  | here (p : Path) : Ascends p [] p
  | up {p above top : Path} {passed : List Path} (hup : p.parent? = some above)
      (hrest : Ascends above passed top) : Ascends p (p :: passed) top

/-- Each step up takes one component away. -/
theorem Ascends.length_add {p top : Path} {passed : List Path} (h : p.Ascends passed top) :
    passed.length + top.components.length = p.components.length := by
  induction h with
  | here p => exact Nat.zero_add _
  | up hup _ ih =>
    obtain ⟨c, hc⟩ := exists_components_eq_concat hup
    rw [hc, List.length_append, List.length_singleton, List.length_cons]
    omega

/-- What holds of a path if it holds of its parent holds of all paths. -/
theorem parent_induction {motive : Path → Prop}
    (step : ∀ p, (∀ up, p.parent? = some up → motive up) → motive p) (p : Path) : motive p := by
  induction hlength : p.components.length using Nat.strongRecOn generalizing p with
  | ind n ih =>
    refine step p fun up hup => ih up.components.length ?_ up rfl
    obtain ⟨c, hc⟩ := exists_components_eq_concat hup
    rw [← hlength, hc, List.length_append, List.length_singleton]
    exact Nat.lt_succ_self _

end Path

/-! ## §3. Absolute paths lead to the same place from everywhere. -/

theorem Path.start_absolute {p : Path} (hp : p.isAbsolute = true) (current : Location) :
    p.start current = [] :=
  if_pos hp

namespace FileTree

variable {p : Path}

theorem resolve_absolute (hp : p.isAbsolute = true) (t : FileTree) (purpose : Purpose)
    (current other : Location) : t.resolve purpose current p = t.resolve purpose other p := by
  unfold resolve
  rw [Path.start_absolute hp, Path.start_absolute hp]

theorem isFile_absolute (hp : p.isAbsolute = true) (t : FileTree) (current other : Location) :
    t.isFile current p = t.isFile other p := by
  unfold isFile
  rw [resolve_absolute hp t .target current other]

theorem readFile_absolute (hp : p.isAbsolute = true) (t : FileTree) (current other : Location) :
    t.readFile current p = t.readFile other p := by
  unfold readFile
  rw [resolve_absolute hp t .target current other]

end FileTree

namespace Configuration

variable {inv : CommandLine.Invocation} {s s' : Machine} {start name : Path}

/-! ## §4. The nearest file. -/

/-- What a search upwards comes to: the regular file in the nearest directory
that holds one, or nothing at the end of the way. -/
inductive Finds (s : Machine) (start name : Path) : Option Path → Prop where
  | nearest {passed : List Path} {d : Path} (hway : start.Ascends passed d)
      (hfile : s.files.isFile s.current (d.join name) = true)
      (hmissed : ∀ q ∈ passed, s.files.isFile s.current (q.join name) = false) :
      Finds s start name (some (d.join name))
  | nowhere {passed : List Path} {top : Path} (hway : start.Ascends passed top)
      (htop : top.parent? = none)
      (hmissed : ∀ q ∈ passed ++ [top], s.files.isFile s.current (q.join name) = false) :
      Finds s start name none

/-- What is found from the parent is found, unless there is a file at hand. -/
theorem Finds.up {up : Path} {found : Option Path} (hup : start.parent? = some up)
    (hmiss : s.files.isFile s.current (start.join name) = false) (h : Finds s up name found) :
    Finds s start name found := by
  cases h with
  | nearest hway hfile hmissed =>
    exact .nearest (.up hup hway) hfile (List.forall_mem_cons.2 ⟨hmiss, hmissed⟩)
  | nowhere hway htop hmissed =>
    exact .nowhere (.up hup hway) htop (List.forall_mem_cons.2 ⟨hmiss, hmissed⟩)

theorem candidates_eq (start name : Path) :
    candidates start name = start.join name :: match start.parent? with
      | none => []
      | some up => candidates up name := by
  unfold candidates
  rw [Path.ancestors_eq]
  cases start.parent? <;> rfl

theorem finds_candidates (s : Machine) (start name : Path) :
    Finds s start name ((candidates start name).find? (s.files.isFile s.current)) := by
  induction start using Path.parent_induction with
  | step start ih =>
    rw [candidates_eq, List.find?_cons]
    cases hfile : s.files.isFile s.current (start.join name) with
    | true => exact .nearest (.here start) hfile fun q hq => nomatch hq
    | false =>
      dsimp only
      cases hup : start.parent? with
      | none =>
        refine .nowhere (.here start) hup fun q hq => ?_
        rwa [List.mem_singleton.1 hq]
      | some up => exact .up hup hfile (ih up hup)

theorem perform_locate_relative (s : Machine) (start : Path) (h : name.isAbsolute = false) :
    s.perform (locate start name)
      = (.ok ((candidates start name).find? (s.files.isFile s.current)), s) := by
  unfold locate
  rw [h]
  exact perform_findM? (fun p files current => files.isFile current p) _ s

/-- A directory where the file might be is passed over. -/
theorem perform_locate_of_isDirectory (h : name.isAbsolute = false)
    (hdirectory : s.files.isDirectory s.current (start.join name) = true) :
    s.perform (locate start name) = match start.parent? with
      | none => (.ok none, s)
      | some up => s.perform (locate up name) := by
  have hmiss : s.files.isFile s.current (start.join name) = false := by
    unfold FileTree.isDirectory at hdirectory
    unfold FileTree.isFile
    split at hdirectory
    · next hfolder => rw [hfolder]
    · cases hdirectory
  rw [perform_locate_relative s start h, candidates_eq, List.find?_cons, hmiss]
  dsimp only
  cases start.parent? with
  | none => rfl
  | some up => exact (perform_locate_relative s up h).symm

/-! ## §5. Loading from further below. -/

theorem normalized_absolute {p : Path} (hp : p.isAbsolute = true) (h : s'.files = s.files) :
    normalized s' p = normalized s p := by
  unfold normalized FileTree.canonical?
  rw [h, Path.start_absolute hp, Path.start_absolute hp, if_pos hp, if_pos hp]

/-- Whether a machine stands at or below a directory that holds the configuration
file of a command line, and comes to no other one on the way up there. -/
structure StandsBelow (inv : CommandLine.Invocation) (s s' : Machine) : Prop where
  files : s'.files = s.files
  below : s.current <+: s'.current
  relative : (nameOf inv).isAbsolute = false
  held : s.files.isFile s.current (candidate inv s.current) = true
  missed : ∀ way, s.current <+: way → way <+: s'.current → way ≠ s.current →
    s.files.isFile s.current (candidate inv way) = false

theorem isAbsolute_candidate (inv : CommandLine.Invocation) (way : Location) :
    (candidate inv way).isAbsolute = true :=
  isAbsolute_join (Location.isAbsolute_path way)

/-- The directory of the file is one of those places. -/
theorem StandsBelow.self (h : StandsBelow inv s s') : StandsBelow inv s s where
  files := rfl
  below := List.prefix_rfl
  relative := h.relative
  held := h.held
  missed _ hbelow hway hne := absurd (hway.eq_of_length_le hbelow.length_le) hne

/-- The same file is found from further below. -/
theorem located_below (h : StandsBelow inv s s') :
    located inv s' = some (candidate inv s.current) := by
  have hlook : ∀ way, s'.files.isFile s'.current (candidate inv way)
      = s.files.isFile s.current (candidate inv way) := by
    intro way
    rw [h.files, FileTree.isFile_absolute (isAbsolute_candidate inv way)]
  have hnearest : s'.current.inits.reverse.find? (fun way =>
      s'.files.isFile s'.current (candidate inv way)) = some s.current := by
    refine find?_inits_eq_some.2
      ⟨h.below, (hlook s.current).trans h.held, fun other hother hlength => ?_⟩
    -- a longer way passes the directory of the file
    have hbelow : s.current <+: other := List.prefix_of_prefix_length_le h.below hother hlength.le
    have hne : other ≠ s.current := by
      rintro rfl
      exact Nat.lt_irrefl _ hlength
    exact (hlook other).trans (h.missed other hbelow hother hne)
  rw [located_of_relative h.relative, hnearest]
  rfl

/-- The same is gathered from further below. -/
theorem gather_from_below (h : StandsBelow inv s s') :
    (s'.perform (gather inv)).1 = (s.perform (gather inv)).1 := by
  have habsolute := isAbsolute_candidate inv s.current
  have hdocument : documentAt s' (some (candidate inv s.current))
      = documentAt s (some (candidate inv s.current)) := by
    unfold documentAt
    dsimp only
    rw [h.files, FileTree.readFile_absolute habsolute s.files s'.current s.current]
  rw [perform_gather, perform_gather, located_below h.self, located_below h, hdocument]
  cases hread : s.files.readFile s.current (candidate inv s.current) with
  | error e =>
    unfold documentAt
    dsimp only
    rw [hread]
    rfl
  | ok bytes =>
    -- a file has a parent, and so the working directory does not count
    obtain ⟨up, hup⟩ := exists_parent habsolute hread
    have hroot : ∀ current : Location, rootPath current (some (candidate inv s.current)) = up :=
      fun current => by rw [rootPath, Option.bind_some, hup, Option.getD_some]
    have hgathered : gatheredFrom inv s' (some (candidate inv s.current))
        = gatheredFrom inv s (some (candidate inv s.current)) := by
      funext document
      unfold gatheredFrom
      have hparent : up.isAbsolute = true := (Path.parent?_spec habsolute hup).1
      rw [hroot, hroot, normalized_absolute hparent h.files, Option.map_some,
        Option.map_some, normalized_absolute habsolute h.files]
    rw [hgathered]

/-- From further below the same configuration is loaded, or the same is wrong
with it.  A search upwards from any path ends after as many steps as the path
has components at most, finds the nearest regular file, and passes over a
directory. -/
theorem load_from_below :
    (∀ inv s s', StandsBelow inv s s' →
      (s'.perform (load inv)).1 = (s.perform (load inv)).1)
    ∧ ∀ (s : Machine) (start name : Path), name.isAbsolute = false →
      (∃ found, s.perform (locate start name) = (.ok found, s) ∧ Finds s start name found)
      ∧ (∀ passed d, start.Ascends passed d → passed.length ≤ start.components.length)
      ∧ (s.files.isDirectory s.current (start.join name) = true →
        s.perform (locate start name) = match start.parent? with
          | none => (.ok none, s)
          | some up => s.perform (locate up name)) := by
  refine ⟨fun inv s s' h => ?_, fun s start name h => ⟨?_, fun passed d hway => ?_, ?_⟩⟩
  · rw [perform_load_eq, perform_load_eq, gather_from_below h]
    cases hgather : (s.perform (gather inv)).1 with
    | error f => rfl
    | ok c =>
      have hroot : c.root.isAbsolute = true := (observes_gather inv).outcome s c hgather
      have hchecked : checked s' c = checked s c := by
        unfold checked
        rw [normalized_absolute (isAbsolute_join hroot) h.files,
          normalized_absolute (isAbsolute_join hroot) h.files]
      show Except.mapError _ (check { c with settings := checked s' c }) = _
      rw [hchecked]
      rfl
  · exact ⟨_, perform_locate_relative s start h, finds_candidates s start name⟩
  · have hlength := hway.length_add
    omega
  · exact perform_locate_of_isDirectory h

theorem isUsable_defaultName : Name.isUsable (Utf8.encode defaultName) = true := by decide

def configName : EntryName := ⟨Utf8.encode defaultName, isUsable_defaultName⟩

/-- A machine on a tree with a configuration file at the top and a directory of
that name in another directory. -/
def guardedSite (current : Location) : Machine :=
  .start (((FileTree.empty.putFolder [] otherName).putFolder [otherName] configName).putFile []
    configName (Utf8.encode "[bundle]\nbytes_per_line = 4\n")) current

theorem standsBelow_guardedSite : StandsBelow (writingTo (.ofString "out")) (guardedSite [])
    (guardedSite [otherName]) where
  files := rfl
  below := List.nil_prefix
  relative := by decide
  held := by decide +kernel
  missed way _ hway hne := by
    rcases List.prefix_concat_iff.1 (show way <+: [] ++ [otherName] from hway) with rfl | hway
    · decide +kernel
    · exact absurd (List.prefix_nil.1 hway) hne

/-- From the other directory the same is loaded as from the top, since the
directory of that name is passed over. -/
theorem load_from_below_guardedSite :
    StandsBelow (writingTo (.ofString "out")) (guardedSite []) (guardedSite [otherName])
      ∧ ((guardedSite [otherName]).perform (load (writingTo (.ofString "out")))).1
        = ((guardedSite []).perform (load (writingTo (.ofString "out")))).1
      ∧ (((guardedSite [otherName]).perform (load (writingTo (.ofString "out")))).1.toOption.map
        fun c => (c.root, c.settings.bytesPerLine)) = some (.ofString "/", 4)
      ∧ (guardedSite []).perform (locate (.ofString "/other") (.ofString defaultName))
        = (guardedSite []).perform (locate (.ofString "/") (.ofString defaultName)) := by
  have hbelow := load_from_below.1 _ _ _ standsBelow_guardedSite
  have hskipped := (load_from_below.2 (guardedSite []) (.ofString "/other") (.ofString defaultName)
    (by decide)).2.2 (by decide +kernel)
  exact ⟨standsBelow_guardedSite, hbelow, by decide +kernel, hskipped⟩

end Configuration

end AssetEmbed
