/-
  AssetEmbed.Proofs.Files.Writing — what writing files into a directory does.

  The files of a bundle are written into one directory one after another.  Each
  write puts one file there and changes no other file, and because no two of
  the names are equal every file that has been written stays as it is.

  Main results:
    * `plain_of_isStem`  — the name of a generated file is one component.
    * `components_child` — its path is that of the directory and this name.
    * `writeFile_child`  — what one write does.
    * `WritesAll.wrote`  — what writing a list of files does.
    * `readFile_child`   — what is in a file of the directory can be read.
-/
import AssetEmbed.Proofs.Files.Landing
import AssetEmbed.Proofs.Plan
import AssetEmbed.Settings.Validation

namespace AssetEmbed

/-! ## §1. Names of generated files. -/

/-- Whether bytes are a name of an entry, unless they are too many. -/
structure Name.Plain (name : Name) : Prop where
  ne_nil : name ≠ []
  ne_dot : name ≠ Path.dot
  ne_dotDot : name ≠ Path.dotDot
  slash_notMem : Path.slash ∉ name
  zero_notMem : 0 ∉ name

theorem EntryName.plain (name : EntryName) : Name.Plain name.bytes where
  ne_nil := name.ne_nil
  ne_dot := name.ne_dot
  ne_dotDot := name.ne_dotDot
  slash_notMem := name.slash_notMem
  zero_notMem := name.usable_spec.2.2.2.2.1

namespace Utf8

theorem encode_eq_flatMap (s : String) : encode s = s.toList.flatMap String.utf8EncodeChar := by
  unfold encode
  rw [← String.utf8Encode_toList, List.utf8Encode]
  simp

/-- Characters of ASCII are single bytes. -/
theorem encode_of_ascii {s : String} (h : ∀ c ∈ s.toList, c.toNat < 128) :
    encode s = s.toList.map Char.toUInt8 := by
  rw [encode_eq_flatMap]
  generalize s.toList = chars at h ⊢
  induction chars with
  | nil => rfl
  | cons c cs ih =>
    obtain ⟨hc, hcs⟩ := List.forall_mem_cons.1 h
    have hsize : c.utf8Size = 1 :=
      Char.utf8Size_eq_one_iff.2 (UInt32.le_iff_toNat_le.2 (Nat.le_of_lt_succ hc))
    rw [List.flatMap_cons, String.utf8EncodeChar_eq_singleton hsize, ih hcs]
    rfl

theorem eq_of_toUInt8_eq {c d : Char} (hc : c.toNat < 128) (hd : d.toNat < 128)
    (h : c.toUInt8 = d.toUInt8) : c = d := by
  have hmod : c.toNat % 256 = d.toNat % 256 := congrArg UInt8.toNat h
  apply Char.ext
  apply UInt32.toNat_inj.1
  change c.toNat = d.toNat
  omega

end Utf8

namespace Settings

/-- Letters and digits are characters of ASCII. -/
theorem toNat_lt_of_isAlphanum {c : Char} (h : c.isAlphanum = true) : c.toNat < 128 := by
  have hranges : (decide (c.val ≥ 'A'.val ∧ c.val ≤ 'Z'.val)
      || (decide (c.val ≥ 'a'.val) && decide (c.val ≤ 'z'.val))
      || (decide (c.val ≥ '0'.val) && decide (c.val ≤ '9'.val))) = true := h
  simp only [Bool.or_eq_true, Bool.and_eq_true, decide_eq_true_eq, UInt32.le_iff_toNat_le] at hranges
  rcases hranges with (⟨-, h⟩ | ⟨-, h⟩) | ⟨-, h⟩
  all_goals exact Nat.lt_of_le_of_lt h (by decide)

theorem toNat_lt_of_isStemPart {c : Char} (h : isStemPart c = true) : c.toNat < 128 := by
  simp only [isStemPart, Identifier.isPart, Bool.or_eq_true, beq_iff_eq] at h
  rcases h with ((h | rfl) | rfl) | rfl
  · exact toNat_lt_of_isAlphanum h
  all_goals decide

theorem isPart_of_isStart {c : Char} (h : Identifier.isStart c = true) :
    Identifier.isPart c = true := by
  simp only [Identifier.isStart, Bool.or_eq_true] at h
  simp only [Identifier.isPart, Char.isAlphanum, Bool.or_eq_true]
  exact h.imp_left .inl

/-- An identifier is a file stem. -/
theorem isStem_of_isIdentifier {cs : List Char} (h : Identifier.isIdentifier cs = true) :
    isStem cs = true := by
  cases cs with
  | nil => cases h
  | cons c rest =>
    simp only [Identifier.isIdentifier, Bool.and_eq_true, List.all_eq_true] at h
    simp only [isStem, Bool.and_eq_true, List.all_eq_true]
    exact ⟨isPart_of_isStart h.1, fun d hd => by simp [isStemPart, h.2 d hd]⟩

end Settings

/-- A file stem with the extension of a target is one again. -/
theorem Settings.isStem_fileName {stem : String} (h : isStem stem.toList = true)
    (target : Target) : isStem (target.fileName stem).toList = true := by
  have hextension : ("." ++ target.extension).toList.all isStemPart = true := by
    cases target <;> decide
  unfold Target.fileName
  rw [String.append_assoc, String.toList_append]
  cases hstem : stem.toList with
  | nil =>
    rw [hstem] at h
    cases h
  | cons c cs =>
    rw [hstem, isStem, Bool.and_eq_true] at h
    rw [List.cons_append, isStem, List.all_append, h.1, h.2, hextension]
    rfl

/-- A file stem is a name. -/
theorem plain_of_isStem {s : String} (h : Settings.isStem s.toList = true) :
    Name.Plain (Utf8.encode s) := by
  obtain ⟨c, cs, hs, hc, hcs⟩ : ∃ c cs, s.toList = c :: cs
      ∧ Settings.isStemPart c = true ∧ c ≠ '.' ∧ ∀ d ∈ cs, Settings.isStemPart d = true := by
    cases hl : s.toList with
    | nil =>
      rw [hl] at h
      cases h
    | cons c cs =>
      rw [hl, Settings.isStem, Bool.and_eq_true] at h
      refine ⟨c, cs, rfl, by simp [Settings.isStemPart, h.1], ?_, List.all_eq_true.1 h.2⟩
      rintro rfl
      exact absurd h.1 (by decide)
  have hparts : ∀ d ∈ s.toList, Settings.isStemPart d = true := by
    rw [hs]
    exact List.forall_mem_cons.2 ⟨hc, hcs.2⟩
  have hbytes := Utf8.encode_of_ascii fun d hd => Settings.toNat_lt_of_isStemPart (hparts d hd)
  -- a byte of the name is a character that a stem may hold
  have hmem : ∀ d : Char, d.toNat < 128 → Settings.isStemPart d = false →
      d.toUInt8 ∉ Utf8.encode s := by
    intro d hd hpart hm
    rw [hbytes] at hm
    obtain ⟨e, he, heq⟩ := List.mem_map.1 hm
    have hde := Utf8.eq_of_toUInt8_eq (Settings.toNat_lt_of_isStemPart (hparts e he)) hd heq
    rw [← hde, hparts e he] at hpart
    cases hpart
  -- and the first of them is no dot
  have hdot : ∀ rest, Utf8.encode s ≠ 0x2E :: rest := by
    intro rest heq
    rw [hbytes, hs] at heq
    exact hcs.1 (Utf8.eq_of_toUInt8_eq (Settings.toNat_lt_of_isStemPart hc) (by decide)
      (List.cons.inj heq).1)
  refine ⟨fun hnil => ?_, hdot [], hdot [0x2E], hmem '/' (by decide) (by decide),
    hmem '\x00' (by decide) (by decide)⟩
  rw [hbytes, hs] at hnil
  cases hnil

/-- Every file of a bundle has the name of a stem. -/
theorem isStem_of_mem_units {b : Bundle} {s : Settings} {u : SourceUnit}
    (hs : Settings.isStem s.indexName.toList = true) (h : u ∈ units b s) :
    Settings.isStem u.stem.toList = true := by
  rcases eq_of_mem_units h with ⟨-, a, -, rfl⟩ | rfl
  · refine Settings.isStem_of_isIdentifier ?_
    show Identifier.isIdentifier (String.ofList _).toList = true
    rw [String.toList_ofList]
    exact Identifier.isIdentifier_sanitize _
  · exact hs

/-! ## §2. Paths below a directory. -/

namespace Path

variable {p q : Path} {name : Name}

/-- The pieces of a joined path are those of both, but for empty ones between them. -/
theorem exists_pieces_join (hp : p.bytes ≠ []) (hq : q.isAbsolute = false) :
    ∃ pieces tail, (∀ piece ∈ tail, piece = ([] : Name))
      ∧ splitSlash p.bytes = pieces ++ tail
      ∧ splitSlash (p.join q).bytes = pieces ++ splitSlash q.bytes := by
  unfold join
  rw [if_neg (Bool.eq_false_iff.1 hq)]
  split
  · next h =>
    obtain ⟨front, hfront⟩ := List.getLast?_eq_some_iff.1 (h.resolve_left hp)
    refine ⟨splitSlash front, [[]], by simp, ?_, ?_⟩
    · rw [hfront, splitSlash_append]
      rfl
    · rw [hfront, List.append_assoc]
      exact splitSlash_append front q.bytes
  · exact ⟨splitSlash p.bytes, [], by simp, by simp, splitSlash_append p.bytes q.bytes⟩

theorem isAbsolute_of_plain (h : name.Plain) : isAbsolute ⟨name⟩ = false := by
  cases name with
  | nil => rfl
  | cons b rest =>
    have hb : b ≠ slash := fun hb => h.slash_notMem (hb ▸ List.mem_cons_self)
    simpa [isAbsolute] using hb

theorem ne_nil_of_isAbsolute (h : p.isAbsolute = true) : p.bytes ≠ [] := by
  intro hnil
  simp [isAbsolute, hnil] at h

theorem isAbsolute_join_eq (hp : p.bytes ≠ []) (hq : q.isAbsolute = false) :
    (p.join q).isAbsolute = p.isAbsolute := by
  obtain ⟨b, rest, hb⟩ := List.exists_cons_of_ne_nil hp
  unfold join
  rw [if_neg (Bool.eq_false_iff.1 hq)]
  unfold isAbsolute
  split <;> rw [hb] <;> rfl

/-- A relative path has a first piece that is not empty. -/
theorem ne_nil_of_mem_head {piece : Name} {pieces : List Name} (hp : p.bytes ≠ [])
    (hrel : p.isAbsolute = false) (h : splitSlash p.bytes = piece :: pieces) : piece ≠ [] := by
  obtain ⟨b, rest, hb⟩ := List.exists_cons_of_ne_nil hp
  have hslash : ¬ b = slash := by simpa [isAbsolute, hb] using hrel
  rw [hb, splitSlash, if_neg hslash] at h
  split at h <;> cases h <;> exact List.cons_ne_nil _ _

/-- A path with a relative one behind it has the components of both.  A dot at
the beginning of the second does not count there. -/
theorem components_join_relative (hp : p.bytes ≠ []) (hq : q.isAbsolute = false) :
    (p.join q).components = p.components ++ (splitSlash q.bytes).filterMap Component.ofPiece := by
  obtain ⟨pieces, tail, htail, hpieces, hjoin⟩ := exists_pieces_join hp hq
  have hidle : tail.filterMap Component.ofPiece = [] := by
    rw [List.filterMap_eq_nil_iff]
    intro piece hm
    rw [htail piece hm]
    rfl
  unfold components
  rw [isAbsolute_join_eq hp hq, hjoin, hpieces]
  cases habsolute : p.isAbsolute with
  | true =>
    rw [if_pos rfl, if_pos rfl, List.filterMap_append, List.filterMap_append, hidle]
    simp
  | false =>
    rw [if_neg Bool.false_ne_true, if_neg Bool.false_ne_true]
    cases pieces with
    | nil =>
      -- then the path would be nothing but separators
      obtain ⟨piece, rest, hcons⟩ := List.exists_cons_of_ne_nil (splitSlash_ne_nil p.bytes)
      refine absurd (htail piece ?_) (ne_nil_of_mem_head hp habsolute hcons)
      rw [List.nil_append] at hpieces
      rw [← hpieces, hcons]
      exact List.mem_cons_self
    | cons piece rest =>
      simp only [List.cons_append, List.filterMap_append, hidle]
      simp

/-- A path with a name added has one component more. -/
theorem components_join (hp : p.bytes ≠ []) (hn : name.Plain) :
    (p.join ⟨name⟩).components = p.components ++ [.normal name] := by
  have hname : Component.ofPiece name = some (.normal name) := by
    rw [Component.ofPiece, if_neg (not_or.2 ⟨hn.ne_nil, hn.ne_dot⟩), if_neg hn.ne_dotDot]
  rw [components_join_relative hp (isAbsolute_of_plain hn), splitSlash_of_notMem hn.slash_notMem,
    List.filterMap_cons_some hname, List.filterMap_nil]

/-- What a longer path can be used for, the path that it begins with can be too. -/
theorem fault?_of_prefix {p q : Path} (hp : p.bytes ≠ []) (h : p.bytes <+: q.bytes)
    (hq : q.fault? = none) : p.fault? = none := by
  have hlength := h.length_le
  obtain ⟨rest, hrest⟩ := h
  unfold fault? at hq ⊢
  split at hq
  · cases hq
  · next hzero =>
    rw [← hrest] at hzero
    have hzero' : ¬ p.bytes.contains 0 = true := by
      simp only [List.contains_eq_mem, decide_eq_true_eq] at hzero ⊢
      exact fun hm => hzero (List.mem_append_left _ hm)
    rw [if_neg hzero', if_neg hp]
    split at hq
    · cases hq
    · split at hq
      · cases hq
      · rw [if_neg (by omega)]

/-- The path of an entry is that of its directory with a name added. -/
theorem components_child (hp : p.isAbsolute = true) (hn : name.Plain) :
    (p.join ⟨name⟩).components = p.components ++ [.normal name] :=
  components_join (ne_nil_of_isAbsolute hp) hn

end Path

theorem Step.ofPiece_of_plain {name : Name} (h : name.Plain) :
    ofPiece name = if hu : name.isUsable = true then .down ⟨name, hu⟩ else .overlong := by
  rw [ofPiece, if_neg h.ne_nil, if_neg h.ne_dot, if_neg h.ne_dotDot]

theorem Step.ofPiece_ne_blank {name : Name} (h : name.Plain) : ofPiece name ≠ .blank := by
  rw [ofPiece_of_plain h]
  split <;> simp

/-- The steps of a path with a name added, whatever separators stand behind the
path. -/
theorem Path.steps_join {p : Path} {name : Name} (hp : p.bytes ≠ []) (hn : name.Plain) :
    ∃ front tail, (∀ step ∈ tail, step = .blank) ∧ p.steps = front ++ tail
      ∧ (p.join ⟨name⟩).steps = front ++ [Step.ofPiece name] := by
  obtain ⟨pieces, tail, htail, hpieces, hjoin⟩ := exists_pieces_join hp (isAbsolute_of_plain hn)
  refine ⟨pieces.map Step.ofPiece, tail.map Step.ofPiece, fun step hm => ?_, ?_, ?_⟩
  · obtain ⟨piece, hpiece, rfl⟩ := List.mem_map.1 hm
    rw [htail piece hpiece]
    rfl
  · rw [steps, hpieces, List.map_append]
  · rw [steps, hjoin, splitSlash_of_notMem hn.slash_notMem, List.map_append]
    rfl

/-- The place of an entry of a directory. -/
def Location.child? (place : Location) (name : Name) : Option Location :=
  if h : name.isUsable = true then some (place ++ [⟨name, h⟩]) else none

theorem Location.child?_eq_some {place way : Location} {name : Name} :
    place.child? name = some way ↔ ∃ n : EntryName, n.bytes = name ∧ way = place ++ [n] := by
  unfold child?
  constructor
  · intro h
    split at h
    · next hu => exact ⟨⟨name, hu⟩, rfl, (Option.some.inj h).symm⟩
    · cases h
  · rintro ⟨n, rfl, rfl⟩
    rw [dif_pos n.usable]

/-- An entry of a directory has one name. -/
theorem Location.eq_of_child? {place way : Location} {name other : Name}
    (h : place.child? name = some way) (h' : place.child? other = some way) : name = other := by
  obtain ⟨n, rfl, rfl⟩ := child?_eq_some.1 h
  obtain ⟨m, rfl, hm⟩ := child?_eq_some.1 h'
  rw [List.singleton_inj.1 (List.append_cancel_left hm)]

namespace FileTree

variable {t t' : FileTree} {current place way : Location} {p : Path} {name : Name}
  {content : List UInt8}

theorem fault?_of_resolve {purpose : Purpose} {r : Place} (h : t.resolve purpose current p = .ok r) :
    p.fault? = none := by
  unfold resolve at h
  split at h
  · cases h
  · assumption

theorem ne_nil_of_resolve {purpose : Purpose} {r : Place}
    (h : t.resolve purpose current p = .ok r) : p.bytes ≠ [] := by
  intro hnil
  have hfault := fault?_of_resolve h
  simp [Path.fault?, hnil] at hfault

/-- What the path of an entry leads to, once that of its directory leads there. -/
theorem resolve_child {purpose : Purpose} {step : Step} {r : Except FileError Place}
    (hd : t.resolve .target current p = .ok (.folder place))
    (hn : name.Plain) (hstep : Step.ofPiece name = step)
    (hr : ∀ links, walk t.entryAt purpose links place [step] = r)
    (hfault : (p.join ⟨name⟩).fault? = none) :
    t.resolve purpose current (p.join ⟨name⟩) = r := by
  have hne : p.bytes ≠ [] := ne_nil_of_resolve hd
  obtain ⟨front, tail, htail, hsteps, hjoin⟩ := Path.steps_join hne hn
  have hblank : step ≠ .blank := hstep ▸ Step.ofPiece_ne_blank hn
  unfold resolve at hd ⊢
  split at hd
  · cases hd
  · rw [hfault, hjoin, hstep, Path.start, Path.isAbsolute_join_eq hne (Path.isAbsolute_of_plain hn)]
    rw [Path.start, hsteps] at hd
    exact walk_concat hblank hr htail hd

theorem step_of_name {n : EntryName} (h : n.bytes = name) : Step.ofPiece name = .down n := by
  rw [← h]
  exact n.ofPiece_eq_down

/-! ## §3. One file. -/

/-- What one write does: a file is put at a place where neither a directory nor
a link is, and all other places have what they had. -/
structure Puts (t t' : FileTree) (place : Location) (content : List UInt8) : Prop where
  free : ∀ d, t.entryAt place ≠ some (.folder d)
  unlinked : ∀ target, t.entryAt place ≠ some (.link target)
  written : t'.entryAt place = some (.file content)
  others : ∀ way, way ≠ place → Grows (t.entryAt way) (t'.entryAt way)

theorem puts_putFile {n : EntryName} (hs : Solid t.entryAt place)
    (hf : ∀ d, t.entryAt (place ++ [n]) ≠ some (.folder d))
    (hl : ∀ target, t.entryAt (place ++ [n]) ≠ some (.link target)) :
    Puts t (t.putFile place n content) (place ++ [n]) content := by
  obtain ⟨d, hd⟩ := exists_folder_of_solid hs
  refine ⟨hf, hl, ?_, fun way hw => ?_⟩
  · refine (Directory.entryAt_update_append hd [n]).trans ?_
    rw [Directory.entryAt_singleton, Directory.find?_put, if_pos rfl]
  · refine Directory.grows_update fun inner rest hinner hrest => ?_
    refine Directory.grows_putFile (fun other hother => hf other ?_) fun hn => hw (by rw [hrest, hn])
    rw [← Directory.entryAt_singleton, ← Directory.entryAt_append hinner] at hother
    exact hother

theorem contentAt_eq_some : t.contentAt place = some content
    ↔ t.entryAt place = some (.file content) := by
  unfold contentAt
  cases t.entryAt place with
  | none => simp
  | some entry => cases entry <;> simp

/-- Where only directories have been made, files are as they were. -/
theorem contentAt_of_grows (h : Grows (t.entryAt place) (t'.entryAt place)) :
    t'.contentAt place = t.contentAt place := by
  unfold contentAt
  cases hbefore : t.entryAt place with
  | none =>
    rw [hbefore] at h
    generalize t'.entryAt place = after at h
    cases h <;> rfl
  | some entry =>
    rw [hbefore] at h
    generalize t'.entryAt place = after at h
    cases h <;> rfl

theorem Puts.keeps (h : Puts t t' place content) : Keeps t.entryAt t'.entryAt where
  folder {way d} hd := by
    have hw : way ≠ place := fun heq => h.free d (heq ▸ hd)
    exact Grows.folder (hd ▸ h.others way hw)
  link {way target} hl := by
    have hw : way ≠ place := fun heq => h.unlinked target (heq ▸ hl)
    exact Grows.link (hl ▸ h.others way hw)

/-- No link comes up by a write. -/
theorem Puts.link_before (h : Puts t t' place content) {target : Path}
    (hl : t'.entryAt way = some (.link target)) : t.entryAt way = some (.link target) := by
  by_cases hw : way = place
  · rw [hw, h.written] at hl
    cases hl
  · exact Grows.of_link (hl ▸ h.others way hw)

/-- A write that succeeds puts its file into the directory. -/
theorem writeFile_child (hp : p.isAbsolute = true)
    (hd : t.resolve .target current p = .ok (.folder place)) (hn : name.Plain)
    (hl : ∀ way, place.child? name = some way → ∀ target, t.entryAt way ≠ some (.link target))
    (h : t.writeFile current (p.join ⟨name⟩) content = .ok t') :
    (p.join ⟨name⟩).fault? = none
      ∧ ∃ way, place.child? name = some way ∧ Puts t t' way content := by
  have hsolid : Solid t.entryAt place := resolve_holds hp hd
  have hfault : (p.join ⟨name⟩).fault? = none := by
    cases hf : (p.join ⟨name⟩).fault? with
    | none => rfl
    | some e => simp [writeFile, resolve, hf] at h
  refine ⟨hfault, ?_⟩
  by_cases hu : name.isUsable = true
  · have hstep : Step.ofPiece name = .down ⟨name, hu⟩ := step_of_name rfl
    have hchild : place.child? name = some (place ++ [⟨name, hu⟩]) := dif_pos hu
    have hunlinked := hl _ hchild
    have hresolve : t.resolve .writing current (p.join ⟨name⟩) = _ :=
      resolve_child hd hn hstep (walk_name hunlinked) hfault
    refine ⟨_, hchild, ?_⟩
    unfold writeFile at h
    rw [hresolve] at h
    unfold Place.below at h
    cases hentry : t.entryAt (place ++ [⟨name, hu⟩]) with
    | none =>
      rw [hentry] at h
      cases h
      exact puts_putFile hsolid (by simp [hentry]) hunlinked
    | some entry =>
      rw [hentry] at h
      cases entry with
      | file old =>
        cases h
        exact puts_putFile hsolid (by simp [hentry]) hunlinked
      | folder d => cases h
      | link target => exact absurd hentry (hunlinked target)
  · -- a name that is too long leads nowhere
    have hstep : Step.ofPiece name = .overlong := by
      rw [Step.ofPiece_of_plain hn, dif_neg hu]
    have hresolve : t.resolve .writing current (p.join ⟨name⟩) = .error .nameTooLong :=
      resolve_child hd hn hstep (fun links => by cases links <;> rfl) hfault
    unfold writeFile at h
    rw [hresolve] at h
    cases h

/-- What is in a file of a directory can be read. -/
theorem readFile_child (hd : t.resolve .target current p = .ok (.folder place)) (hn : name.Plain)
    (hfault : (p.join ⟨name⟩).fault? = none) (hc : place.child? name = some way)
    (h : t.contentAt way = some content) :
    t.readFile current (p.join ⟨name⟩) = .ok content := by
  obtain ⟨n, hname, rfl⟩ := Location.child?_eq_some.1 hc
  have hfile := contentAt_eq_some.1 h
  have hunlinked : ∀ target, t.entryAt (place ++ [n]) ≠ some (.link target) := by
    intro target
    rw [hfile]
    simp
  have hresolve : t.resolve .target current (p.join ⟨name⟩) = _ :=
    resolve_child hd hn (step_of_name hname) (walk_name hunlinked) hfault
  unfold readFile
  rw [hresolve, Place.below, hfile]

end FileTree

/-! ## §4. All files. -/

/-- The path of a generated file in a directory. -/
def Rendered.path (r : Rendered) (dir : Path) : Path := dir.join (.ofString r.fileName)

/-- The place of a generated file in a directory. -/
def Rendered.place? (r : Rendered) (dir : Location) : Option Location :=
  dir.child? (Utf8.encode r.fileName)

namespace FileTree

/-- Whether files can be written one after another, and what becomes of a tree. -/
inductive WritesAll (current : Location) (dir : Path) :
    FileTree → List Rendered → FileTree → Prop
  | nil (t : FileTree) : WritesAll current dir t [] t
  | cons {t between t' : FileTree} {r : Rendered} {rest : List Rendered}
    (first : t.writeFile current (r.path dir) (Utf8.encode r.content) = .ok between)
    (others : WritesAll current dir between rest t') : WritesAll current dir t (r :: rest) t'

/-- What there is after files have been written into a directory: these files
with their content, and all other files as before. -/
structure Wrote (t t' : FileTree) (dir : Location) (files : List Rendered) : Prop where
  written : ∀ r ∈ files, ∃ way, r.place? dir = some way
    ∧ t'.contentAt way = some (Utf8.encode r.content)
  others : ∀ way, (∀ r ∈ files, r.place? dir ≠ some way) → t'.contentAt way = t.contentAt way

/-- Whether no file would be written where a link is. -/
def Unlinked (t : FileTree) (dir : Location) (files : List Rendered) : Prop :=
  ∀ r ∈ files, ∀ way, r.place? dir = some way → ∀ target, t.entryAt way ≠ some (.link target)

variable {t t' : FileTree} {current place : Location} {dir : Path} {files : List Rendered}

/-- Files of different names that are written one after another all stay. -/
theorem WritesAll.wrote (h : WritesAll current dir t files t') (hp : dir.isAbsolute = true)
    (hd : t.resolve .target current dir = .ok (.folder place))
    (hplain : ∀ r ∈ files, Name.Plain (Utf8.encode r.fileName))
    (hnodup : (files.map Rendered.fileName).Nodup) (hl : t.Unlinked place files) :
    Wrote t t' place files
      ∧ t'.resolve .target current dir = .ok (.folder place)
      ∧ ∀ r ∈ files, (r.path dir).fault? = none := by
  induction h with
  | nil t => exact ⟨⟨by simp, fun _ _ => rfl⟩, hd, by simp⟩
  | @cons t between t' r rest hfirst hrest ih =>
    obtain ⟨hr, hplain⟩ := List.forall_mem_cons.1 hplain
    obtain ⟨hfresh, hnodup⟩ := List.nodup_cons.1 hnodup
    obtain ⟨hlr, hl⟩ := List.forall_mem_cons.1 hl
    obtain ⟨hfault, way, hway, hputs⟩ := writeFile_child hp hd hr hlr hfirst
    -- the directory stays where it is, and the other places are still free of links
    have hd' : between.resolve .target current dir = .ok (.folder place) := by
      unfold resolve at hd ⊢
      split at hd
      · cases hd
      · exact walk_keeps hputs.keeps hd
    have hl' : between.Unlinked place rest := fun c hc other hother target hlink =>
      hl c hc other hother target (hputs.link_before hlink)
    obtain ⟨hwrote, hafter, hfaults⟩ := ih hd' hplain hnodup hl'
    -- no other file has the place of the first one
    have hapart : ∀ c ∈ rest, c.place? place ≠ some way := by
      intro c hc heq
      have hname := Utf8.encode_injective (Location.eq_of_child? heq hway)
      exact hfresh (hname ▸ List.mem_map_of_mem hc)
    refine ⟨⟨List.forall_mem_cons.2 ⟨?_, hwrote.written⟩, fun other hother => ?_⟩, hafter,
      List.forall_mem_cons.2 ⟨hfault, hfaults⟩⟩
    · refine ⟨way, hway, ?_⟩
      rw [hwrote.others way hapart]
      exact contentAt_eq_some.2 hputs.written
    · obtain ⟨hfirst', hothers⟩ := List.forall_mem_cons.1 hother
      rw [hwrote.others other hothers]
      refine contentAt_of_grows (hputs.others other fun heq => hfirst' ?_)
      rw [heq]
      exact hway

end FileTree

end AssetEmbed
