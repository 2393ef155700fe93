/-
  AssetEmbed.Proofs.RelativePath — the path of a file below the asset root.

  Names that a walk comes to below a root are added to its spelling.  However the
  root is spelled, the components of the whole are those of the root and then the
  names.  So what is left below the root are the names, and joined again they are
  the stored path, if they are text.

  Main results:
    * `Path.descend_eq`            — adding names one by one is adding them joined.
    * `Path.components_join_names` — the components of a root with names below it.
    * `storedAs_relativePath`      — what is stored for a path that lies below.
    * `relativePath_exact`         — the stored path, and when there is none.
-/
import AssetEmbed.Proofs.Run.StoredPath

namespace AssetEmbed

/-! ## §1. Names that a walk comes to. -/

/-- Whether bytes can be a name in a directory, as far as paths are concerned. -/
structure Name.Walked (name : Name) : Prop where
  ne_nil : name ≠ []
  ne_dot : name ≠ Path.dot
  ne_dotDot : name ≠ Path.dotDot
  slash_notMem : Path.slash ∉ name

/-- Whether bytes are a text in UTF-8. -/
def Name.IsText (name : Name) : Prop := ∃ text, Utf8.encode text = name

namespace Path

variable {names : List Name} {name : Name} {root : Path}

theorem isAbsolute_joinSlash (h : ∀ name ∈ names, name.Walked) :
    isAbsolute ⟨joinSlash names⟩ = false := by
  cases names with
  | nil => rfl
  | cons name rest =>
    obtain ⟨hname, -⟩ := List.forall_mem_cons.1 h
    obtain ⟨b, bytes, rfl⟩ := List.exists_cons_of_ne_nil hname.ne_nil
    have hb : b ≠ slash := fun hb => hname.slash_notMem (hb ▸ List.mem_cons_self)
    have hhead : (joinSlash ((b :: bytes) :: rest)).head? = some b := by cases rest <;> rfl
    rw [isAbsolute, hhead]
    simpa using hb

theorem ofPiece_of_walked (h : name.Walked) : Component.ofPiece name = some (.normal name) := by
  rw [Component.ofPiece, if_neg (not_or.2 ⟨h.ne_nil, h.ne_dot⟩), if_neg h.ne_dotDot]

theorem filterMap_ofPiece_of_walked (h : ∀ name ∈ names, name.Walked) :
    names.filterMap Component.ofPiece = names.map Component.normal :=
  (List.filterMap_congr fun name hname => ofPiece_of_walked (h name hname)).trans
    (congrFun List.filterMap_eq_map names)

/-- However a root is spelled, its components come first and then the names. -/
theorem components_join_names (root : Path) (hne : names ≠ [])
    (h : ∀ name ∈ names, name.Walked) :
    (root.join ⟨joinSlash names⟩).components = root.components ++ names.map .normal := by
  have hrel := isAbsolute_joinSlash h
  have hpieces := splitSlash_joinSlash hne fun name hname => (h name hname).slash_notMem
  by_cases hroot : root.bytes = []
  · -- nothing stands in front of the first name
    obtain ⟨name, rest, rfl⟩ := List.exists_cons_of_ne_nil hne
    obtain ⟨hname, hrest⟩ := List.forall_mem_cons.1 h
    have hjoin : root.join ⟨joinSlash (name :: rest)⟩ = ⟨joinSlash (name :: rest)⟩ := by
      rw [join, if_neg (Bool.eq_false_iff.1 hrel), if_pos (.inl hroot), hroot]
      rfl
    have hnone : root.components = [] := by
      rw [components, isAbsolute, hroot]
      rfl
    rw [hjoin, hnone, components, if_neg (Bool.eq_false_iff.1 hrel), hpieces]
    dsimp only
    rw [if_neg hname.ne_dot, ofPiece_of_walked hname, filterMap_ofPiece_of_walked hrest]
    rfl
  · rw [components_join_relative hroot hrel, hpieces, filterMap_ofPiece_of_walked h]

/-- Two names added one after the other are added with a separator between them. -/
theorem join_join {rest : List UInt8} (hname : name.Walked)
    (hrest : isAbsolute ⟨rest⟩ = false) :
    (root.join ⟨name⟩).join ⟨rest⟩ = root.join ⟨name ++ slash :: rest⟩ := by
  have hfirst : isAbsolute ⟨name⟩ = false := by
    have hjoined := isAbsolute_joinSlash (List.forall_mem_singleton.2 hname)
    exact hjoined
  have hboth : isAbsolute ⟨name ++ slash :: rest⟩ = false := by
    obtain ⟨b, bytes, rfl⟩ := List.exists_cons_of_ne_nil hname.ne_nil
    exact hfirst
  -- a path that ends with a name does not end with a separator
  have hend : ∀ front : List UInt8, ¬ (front ++ name = [] ∨ (front ++ name).getLast? = some slash) := by
    rintro front (hnil | hlast)
    · exact hname.ne_nil (List.append_eq_nil_iff.1 hnil).2
    · rw [List.getLast?_append_of_ne_nil _ hname.ne_nil] at hlast
      exact hname.slash_notMem (List.mem_of_getLast? hlast)
  unfold join
  rw [if_neg (Bool.eq_false_iff.1 hfirst), if_neg (Bool.eq_false_iff.1 hrest),
    if_neg (Bool.eq_false_iff.1 hboth)]
  split
  · rw [if_neg (hend _)]
    simp
  · rw [if_neg (by simpa using hend (root.bytes ++ [slash]))]
    simp

/-- A walk adds the names one by one. -/
theorem descend_eq (root : Path) (hne : names ≠ []) (h : ∀ name ∈ names, name.Walked) :
    root.descend names = root.join ⟨joinSlash names⟩ := by
  induction names generalizing root with
  | nil => exact absurd rfl hne
  | cons name rest ih =>
    obtain ⟨hname, hrest⟩ := List.forall_mem_cons.1 h
    cases rest with
    | nil => rfl
    | cons next others =>
      refine (ih (root.join ⟨name⟩) (List.cons_ne_nil _ _) hrest).trans ?_
      exact join_join hname (isAbsolute_joinSlash hrest)

end Path

/-! ## §2. Stored paths. -/

/-- Whether an outcome is the text of names with `/` between them, or says that
one of them is no text. -/
structure StoredAs (names : List Name) (p : Path) (outcome : Except BundleError String) :
    Prop where
  text : ∀ texts, texts.map Utf8.encode = names → outcome = .ok (String.intercalate "/" texts)
  broken : (∃ name ∈ names, ¬ name.IsText) → outcome = .error (.nonUtf8Path p)

/-- The names among components. -/
def namesIn (components : List Path.Component) : List Name :=
  components.filterMap fun
    | .normal name => some name
    | _ => none

theorem namesIn_map_normal (names : List Name) : namesIn (names.map .normal) = names := by
  rw [namesIn, List.filterMap_map]
  exact List.filterMap_some

theorem mapM_decode?_encode (texts : List String) :
    (texts.map Utf8.encode).mapM Utf8.decode? = some texts := by
  induction texts with
  | nil => rfl
  | cons text rest ih =>
    rw [List.map_cons, List.mapM_cons, Utf8.decode?_encode, ih]
    rfl

theorem mapM_decode?_eq_none {names : List Name} (h : ∃ name ∈ names, ¬ name.IsText) :
    names.mapM Utf8.decode? = none := by
  induction names with
  | nil => simp at h
  | cons name rest ih =>
    rw [List.mapM_cons]
    cases htext : Utf8.decode? name with
    | none => rfl
    | some text =>
      -- the first name is text, so another one is not
      have hfirst : name.IsText := ⟨text, Utf8.encode_of_decode? htext⟩
      have hrest : ∃ name ∈ rest, ¬ name.IsText := by simpa [hfirst] using h
      rw [ih hrest]
      rfl

variable {root p : Path} {names : List Name}

/-- What is stored for a path below the root are the names in the rest of it. -/
theorem storedAs_relativePath {rest : List Path.Component}
    (h : p.components = root.components ++ rest) :
    StoredAs (namesIn rest) p (relativePath root p) := by
  have hbelow : p.componentsBelow? root = some rest := by
    unfold Path.componentsBelow? Path.startsWith
    rw [h, if_pos (List.isPrefixOf_iff_prefix.2 (List.prefix_append _ _)), List.drop_left]
  have hnames : namesOf rest = (namesIn rest).mapM Utf8.decode? := rfl
  unfold relativePath
  rw [hbelow]
  dsimp only
  rw [hnames]
  refine ⟨fun texts htexts => ?_, fun hbroken => ?_⟩
  · rw [← htexts, mapM_decode?_encode]
  · rw [mapM_decode?_eq_none hbroken]

theorem relativePath_of_not_prefix (h : ¬ root.components <+: p.components) :
    relativePath root p = .error (.outsideRoot p root) := by
  have hbelow : p.componentsBelow? root = none := by
    unfold Path.componentsBelow? Path.startsWith
    rw [if_neg (mt List.isPrefixOf_iff_prefix.1 h)]
  unfold relativePath
  rw [hbelow]

/-- Names are all text, or one of them is not. -/
theorem exists_texts_or (names : List Name) :
    (∃ texts : List String, texts.map Utf8.encode = names) ∨ ∃ name ∈ names, ¬ name.IsText := by
  by_cases h : ∃ name ∈ names, ¬ name.IsText
  · exact .inr h
  · push Not at h
    induction names with
    | nil => exact .inl ⟨[], rfl⟩
    | cons name rest ih =>
      obtain ⟨⟨text, rfl⟩, hrest⟩ := List.forall_mem_cons.1 h
      rcases ih hrest with ⟨texts, rfl⟩ | ⟨other, hother, hbroken⟩
      · exact .inl ⟨text :: texts, rfl⟩
      · exact absurd (hrest other hother) hbroken

/-- A stored path is, in bytes, the names with separators between them. -/
theorem StoredAs.encode_eq {stored : String} (h : StoredAs names p (.ok stored)) :
    Utf8.encode stored = Path.joinSlash names := by
  rcases exists_texts_or names with ⟨texts, htexts⟩ | hbroken
  · cases h.text texts htexts
    rw [encode_intercalate, htexts]
  · cases h.broken hbroken

/-- However the root is spelled, the names that lead to a file below it are its
stored path if they are text, and otherwise it has none; and the stored path
tells the names.  A path that is not below the root is refused, and no other is. -/
theorem relativePath_exact (root : Path) :
    (∀ names, names ≠ [] → (∀ name ∈ names, name.Walked) →
      root.descend names = root.join ⟨Path.joinSlash names⟩
        ∧ StoredAs names (root.join ⟨Path.joinSlash names⟩)
          (relativePath root (root.join ⟨Path.joinSlash names⟩)))
    ∧ (∀ names names' stored, names ≠ [] → names' ≠ [] → (∀ name ∈ names, name.Walked) →
      (∀ name ∈ names', name.Walked) →
      relativePath root (root.join ⟨Path.joinSlash names⟩) = .ok stored →
      relativePath root (root.join ⟨Path.joinSlash names'⟩) = .ok stored → names = names')
    ∧ ∀ p, (relativePath root p = .error (.outsideRoot p root)
        ↔ ¬ root.components <+: p.components)
      ∧ ∀ rest, p.components = root.components ++ rest →
        StoredAs (namesIn rest) p (relativePath root p) := by
  have hstored : ∀ names, names ≠ [] → (∀ name ∈ names, name.Walked) →
      StoredAs names (root.join ⟨Path.joinSlash names⟩)
        (relativePath root (root.join ⟨Path.joinSlash names⟩)) := by
    intro names hne h
    have hrest := storedAs_relativePath (root.components_join_names hne h)
    rwa [namesIn_map_normal] at hrest
  refine ⟨fun names hne h => ⟨root.descend_eq hne h, hstored names hne h⟩,
    fun names names' stored hne hne' h h' heq heq' => ?_, fun p => ⟨⟨fun houtside hprefix => ?_,
      relativePath_of_not_prefix⟩, fun rest => storedAs_relativePath⟩⟩
  · -- the bytes of the stored path fall into the names again
    have hbytes := (heq ▸ hstored names hne h).encode_eq
    have hbytes' := (heq' ▸ hstored names' hne' h').encode_eq
    have hsplit := Path.splitSlash_joinSlash hne fun name hname => (h name hname).slash_notMem
    rw [← hbytes, hbytes', Path.splitSlash_joinSlash hne' fun name hname =>
      (h' name hname).slash_notMem] at hsplit
    exact hsplit.symm
  · obtain ⟨rest, hrest⟩ := hprefix
    have hstored := houtside ▸ storedAs_relativePath hrest.symm
    rcases exists_texts_or (namesIn rest) with ⟨texts, htexts⟩ | hbroken
    · cases hstored.text texts htexts
    · cases hstored.broken hbroken

/-- Below a root that ends in a dot, a name that is no text has no stored path;
and a path that only begins with the same bytes as the root is not below it. -/
theorem relativePath_exact_dotted :
    relativePath (.ofString "./web//.") (.ofString "./web//./css/a.b") = .ok "css/a.b"
      ∧ relativePath (.ofString "./web//.") ⟨Utf8.encode "./web//./" ++ [0xFF]⟩
        = .error (.nonUtf8Path ⟨Utf8.encode "./web//./" ++ [0xFF]⟩)
      ∧ relativePath (.ofString "web") (.ofString "web2/a")
        = .error (.outsideRoot (.ofString "web2/a") (.ofString "web")) := by
  have hwalked : ∀ name ∈ [Utf8.encode "css", Utf8.encode "a.b"], Name.Walked name := by
    intro name hname
    rcases List.mem_pair.1 hname with rfl | rfl <;> exact ⟨by decide, by decide, by decide, by decide⟩
  have hbroken : ∀ name ∈ [[0xFF]], Name.Walked name :=
    List.forall_mem_singleton.2 ⟨by decide, by decide, by decide, by decide⟩
  have hnotText : ¬ Name.IsText [0xFF] := by
    rintro ⟨text, htext⟩
    have hdecoded := Utf8.decode?_encode text
    rw [htext] at hdecoded
    cases hdecoded
  refine ⟨?_, ?_, ?_⟩
  · exact ((relativePath_exact (.ofString "./web//.")).1 _ (by decide) hwalked).2.text
      ["css", "a.b"] rfl
  · exact ((relativePath_exact (.ofString "./web//.")).1 [[0xFF]] (by decide) hbroken).2.broken
      ⟨_, List.mem_singleton_self _, hnotText⟩
  · exact ((relativePath_exact (.ofString "web")).2.2 (.ofString "web2/a")).1.2 (by decide)

end AssetEmbed
