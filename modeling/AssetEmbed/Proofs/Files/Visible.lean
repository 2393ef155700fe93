/-
  AssetEmbed.Proofs.Files.Visible — the visible files below a directory.

  A file below a directory is visible if none of the names that lead to it is
  hidden.  A walk over the directory comes to other things as well, but the
  files among them are just the visible ones, and it comes to each of them once.

  Main results:
    * `mem_visible`     — a visible file is what is there under visible names.
    * `nodup_visible`   — no file is listed twice.
    * `filter_found`    — the files that a walk comes to are the visible ones.
    * `perm_visibleAt`  — the visible files are all that such a list depends on.
-/
import AssetEmbed.Proofs.Files.Landing
import Mathlib.Data.List.Nodup

namespace AssetEmbed

/-! ## §1. Below a directory. -/

namespace Directory

/-- The visible files below a directory with the names that lead to them. -/
def visible : Directory → List (Location × List UInt8)
  | .empty => []
  | .file name content rest =>
    (if isHiddenName name.bytes then [] else [([name], content)]) ++ rest.visible
  | .link _ _ rest => rest.visible
  | .folder name inner rest =>
    (if isHiddenName name.bytes then []
      else inner.visible.map fun file => (name :: file.1, file.2)) ++ rest.visible

/-- Whether names are all visible. -/
def Plain (names : Location) : Prop := ∀ name ∈ names, isHiddenName name.bytes = false

theorem plain_cons {name : EntryName} {names : Location} :
    Plain (name :: names) ↔ isHiddenName name.bytes = false ∧ Plain names :=
  List.forall_mem_cons

theorem entryAt_of_find?_none {d : Directory} {name : EntryName} (h : d.find? name = none)
    (names : Location) : d.entryAt (name :: names) = none := by
  rw [entryAt_cons, h]
  rfl

/-- What is visible under the first name of a directory, and under the others. -/
theorem mem_append_visible {name : EntryName} (entry : Entry) {rest : Directory}
    (hname : rest.find? name = none) (first : List (Location × List UInt8))
    (hfirst : ∀ names content, (names, content) ∈ first ↔ ∃ ns, names = name :: ns
      ∧ isHiddenName name.bytes = false ∧ Plain ns ∧ entry.entryAt ns = some (.file content))
    (hrest : ∀ {names content}, (names, content) ∈ rest.visible
      ↔ Plain names ∧ rest.entryAt names = some (.file content))
    (names : Location) (content : List UInt8) : (names, content) ∈ first ++ rest.visible
      ↔ Plain names ∧ (cons name entry rest).entryAt names = some (.file content) := by
  rw [List.mem_append, hfirst, hrest]
  cases names with
  | nil => simp [entryAt]
  | cons n ns =>
    rw [entryAt_cons (cons name entry rest), find?_cons, plain_cons]
    by_cases hn : n = name
    · -- under the first name there is nothing else
      subst hn
      rw [entryAt_of_find?_none hname, if_pos rfl]
      simp [and_assoc]
    · rw [if_neg hn, ← entryAt_cons]
      simp [hn]

/-- A visible file is what is there under visible names. -/
theorem mem_visible {d : Directory} (h : d.Distinct) {names : Location} {content : List UInt8} :
    (names, content) ∈ d.visible ↔ Plain names ∧ d.entryAt names = some (.file content) := by
  induction d generalizing names content with
  | empty =>
    have hnone : empty.entryAt names ≠ some (.file content) := by
      cases names with
      | nil => simp [entryAt]
      | cons n ns => simp [entryAt_cons, find?]
    simp [visible, hnone]
  | file name c rest ih =>
    refine mem_append_visible (.file c) h.1 _ (fun names content => ?_) (ih h.2) names content
    cases hname : isHiddenName name.bytes with
    | true => simp
    | false =>
      constructor
      · intro hm
        cases List.mem_singleton.1 hm
        exact ⟨[], rfl, rfl, by simp [Plain], rfl⟩
      · rintro ⟨ns, rfl, -, -, hentry⟩
        cases ns with
        | nil =>
          cases hentry
          exact List.mem_singleton_self _
        | cons _ _ => cases hentry
  | link name target rest ih =>
    refine mem_append_visible (.link target) h.1 [] (fun names content => ?_) (ih h.2) names content
    have hlink : ∀ ns, Entry.entryAt ns (.link target) ≠ some (.file content) := by
      intro ns
      cases ns <;> simp [Entry.entryAt]
    simp [hlink]
  | folder name inner rest ihinner ih =>
    refine mem_append_visible (.folder inner) h.1 _ (fun names content => ?_) (ih h.2.2) names
      content
    cases hname : isHiddenName name.bytes with
    | true => simp
    | false =>
      constructor
      · intro hm
        obtain ⟨⟨ns, c⟩, hfile, heq⟩ := List.mem_map.1 hm
        cases heq
        exact ⟨ns, rfl, rfl, (ihinner h.2.1).1 hfile⟩
      · rintro ⟨ns, rfl, -, hfile⟩
        exact List.mem_map.2 ⟨(ns, content), (ihinner h.2.1).2 hfile, rfl⟩

theorem nodup_visible {d : Directory} (h : d.Distinct) : d.visible.Nodup := by
  -- nothing under the first name comes again under the others
  have hapart : ∀ {name : EntryName} {rest : Directory} {names : Location} {content : List UInt8},
      rest.Distinct → rest.find? name = none → (name :: names, content) ∉ rest.visible := by
    intro name rest names content hrest hname hm
    have hentry := ((mem_visible hrest).1 hm).2
    rw [entryAt_of_find?_none hname] at hentry
    cases hentry
  induction d with
  | empty => exact .nil
  | file name c rest ih =>
    unfold visible
    cases isHiddenName name.bytes with
    | true => exact ih h.2
    | false => exact List.nodup_cons.2 ⟨hapart h.2 h.1, ih h.2⟩
  | link name target rest ih => exact ih h.2
  | folder name inner rest ihinner ih =>
    unfold visible
    cases isHiddenName name.bytes with
    | true => exact ih h.2.2
    | false =>
      refine List.nodup_append.2 ⟨List.Nodup.map (fun f g hfg => ?_) (ihinner h.2.1), ih h.2.2, ?_⟩
      · exact Prod.ext (List.cons.inj (Prod.ext_iff.1 hfg).1).2 (Prod.ext_iff.1 hfg).2
      · rintro file hm other hother rfl
        obtain ⟨⟨ns, c⟩, -, rfl⟩ := List.mem_map.1 hm
        exact hapart h.2.2 h.1 hother

end Directory

/-! ## §2. What a walk comes to. -/

/-- Whether a walk has come to a file. -/
def Found.isFile (f : Found) : Bool := f.kind = .file

/-- What a walk comes to at a visible file. -/
def Found.ofNames (names : Location) : Found := ⟨names.map EntryName.bytes, .file⟩

theorem Found.filter_visit (name : Name) (kind : EntryKind) (below : List Found) :
    (visit name kind below).filter isFile
      = if isHiddenName name then []
        else (if kind = .file then [⟨[name], kind⟩] else [])
          ++ (below.filter isFile).map (Found.under name) := by
  unfold visit
  split
  · rfl
  · have hbelow : (below.map (Found.under name)).filter isFile
        = (below.filter isFile).map (Found.under name) := List.filter_map
    rw [List.filter_cons, hbelow]
    simp only [isFile, decide_eq_true_eq]
    split <;> rfl

/-- The files that a walk over a directory comes to are the visible ones. -/
theorem Directory.filter_found (d : Directory) :
    d.found.filter Found.isFile = d.visible.map fun file => Found.ofNames file.1 := by
  induction d with
  | empty => rfl
  | file name c rest ih =>
    unfold found visible
    rw [List.filter_append, Found.filter_visit, ih, List.map_append]
    split <;> rfl
  | link name target rest ih =>
    unfold found visible
    rw [List.filter_append, Found.filter_visit, ih]
    split <;> rfl
  | folder name inner rest ihinner ih =>
    unfold found visible
    rw [List.filter_append, Found.filter_visit, ih, ihinner, List.map_append]
    split
    · rfl
    · rw [List.map_map, List.map_map]
      rfl

/-- Whether one found thing comes before another in a sorted walk. -/
def Found.precedes (a b : Found) : Bool := decide (a.names ≤ b.names)

theorem Found.precedes_total (a b : Found) : a.precedes b = true ∨ b.precedes a = true := by
  simp only [precedes, decide_eq_true_eq]
  exact List.le_total _ _

theorem Found.precedes_trans (a b c : Found) (hab : a.precedes b = true)
    (hbc : b.precedes c = true) : a.precedes c = true := by
  simp only [precedes, decide_eq_true_eq] at hab hbc ⊢
  exact List.le_trans hab hbc

theorem pairwise_sortFound (found : List Found) :
    (sortFound found).Pairwise fun a b => a.precedes b = true :=
  Order.pairwise_sortBy Found.precedes_total Found.precedes_trans found

/-- In a sorted walk files with the same names are the same. -/
theorem Found.eq_of_precedes {a b : Found} (ha : a.isFile = true) (hb : b.isFile = true)
    (hab : a.precedes b = true) (hba : b.precedes a = true) : a = b := by
  simp only [isFile, precedes, decide_eq_true_eq] at ha hb hab hba
  have hnames : a.names = b.names := List.le_antisymm hab hba
  cases a
  cases b
  cases ha
  cases hb
  cases hnames
  rfl

/-! ## §3. In a tree. -/

theorem Directory.distinct_entryAt {d inner : Directory} {place : Location} (h : d.Distinct)
    (hp : d.entryAt place = some (.folder inner)) : inner.Distinct := by
  induction place generalizing d with
  | nil =>
    cases hp
    exact h
  | cons name names ih =>
    obtain ⟨next, hnext, hinner⟩ := find?_of_entryAt hp
    exact ih (h.find? hnext) hinner

namespace FileTree

variable {t t' : FileTree} {current current' place place' : Location} {p p' : Path}

/-- Whether there is a file below a place, under visible names. -/
def Visible (t : FileTree) (place names : Location) (content : List UInt8) : Prop :=
  Directory.Plain names ∧ t.entryAt (place ++ names) = some (.file content)

/-- The visible files below a place with the names that lead to them. -/
def visibleAt (t : FileTree) (place : Location) : List (Location × List UInt8) :=
  match t.entryAt place with
  | some (.folder d) => d.visible
  | _ => []

theorem mem_visibleAt {d : Directory} (h : t.entryAt place = some (.folder d)) {names : Location}
    {content : List UInt8} :
    (names, content) ∈ t.visibleAt place ↔ t.Visible place names content := by
  have hd : d.Distinct := Directory.distinct_entryAt t.distinct h
  have hentry : t.entryAt (place ++ names) = d.entryAt names := Directory.entryAt_append h names
  unfold visibleAt Visible
  rw [h, hentry]
  exact Directory.mem_visible hd

theorem nodup_visibleAt (t : FileTree) (place : Location) : (t.visibleAt place).Nodup := by
  unfold visibleAt
  split
  · next d h => exact Directory.nodup_visible (Directory.distinct_entryAt t.distinct h)
  · exact .nil

/-- The visible files are all that their list depends on. -/
theorem perm_visibleAt {d d' : Directory} (h : t.entryAt place = some (.folder d))
    (h' : t'.entryAt place' = some (.folder d'))
    (hsame : ∀ names content, t.Visible place names content ↔ t'.Visible place' names content) :
    (t.visibleAt place).Perm (t'.visibleAt place') := by
  rw [List.perm_ext_iff_of_nodup (nodup_visibleAt t place) (nodup_visibleAt t' place')]
  rintro ⟨names, content⟩
  rw [mem_visibleAt h, mem_visibleAt h']
  exact hsame names content

/-- The files that a walk comes to are the visible ones. -/
theorem perm_filter_entriesBelow (hp : t.resolve .target current p = .ok (.folder place))
    (hd : ∃ d, t.entryAt place = some (.folder d)) :
    ((t.entriesBelow current p).filter Found.isFile).Perm
      ((t.visibleAt place).map fun file => Found.ofNames file.1) := by
  obtain ⟨d, hd⟩ := hd
  unfold entriesBelow visibleAt
  rw [hp]
  dsimp only
  rw [hd, ← Directory.filter_found]
  exact (Order.sortBy_perm _ _).filter _

theorem pairwise_entriesBelow (t : FileTree) (current : Location) (p : Path) :
    (t.entriesBelow current p).Pairwise fun a b => a.precedes b = true := by
  unfold entriesBelow
  split
  · split
    · exact pairwise_sortFound _
    · exact .nil
  · exact .nil

/-- A sorted walk comes to the same files wherever the same are visible. -/
theorem filter_entriesBelow_eq (hp : t.resolve .target current p = .ok (.folder place))
    (hp' : t'.resolve .target current' p' = .ok (.folder place'))
    (hd : ∃ d, t.entryAt place = some (.folder d)) (hd' : ∃ d, t'.entryAt place' = some (.folder d))
    (hsame : ∀ names content, t.Visible place names content ↔ t'.Visible place' names content) :
    (t.entriesBelow current p).filter Found.isFile
      = (t'.entriesBelow current' p').filter Found.isFile := by
  have hperm : (t.visibleAt place).Perm (t'.visibleAt place') := by
    obtain ⟨d, hd⟩ := hd
    obtain ⟨d', hd'⟩ := hd'
    exact perm_visibleAt hd hd' hsame
  have hfiles := ((perm_filter_entriesBelow hp hd).trans (hperm.map _)).trans
    (perm_filter_entriesBelow hp' hd').symm
  refine hfiles.eq_of_pairwise (fun a b ha hb => ?_) ((t.pairwise_entriesBelow current p).filter _)
    ((t'.pairwise_entriesBelow current' p').filter _)
  exact Found.eq_of_precedes (List.mem_filter.1 ha).2 (List.mem_filter.1 hb).2

end FileTree

end AssetEmbed
