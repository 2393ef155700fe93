/-
  AssetEmbed.FileTree.Directory — directories and what they hold.

  A directory holds entries under names: regular files, symbolic links and
  directories.  `find?` is the view of a directory, and every operation is
  described by what it does to that view.

  Main results:
    * `find?_put`, `find?_erase`          — what is found after a change.
    * `distinct_put`, `distinct_erase`    — no name is ever held twice.
    * `distinct_update`                   — also after a change further below.
-/
import AssetEmbed.Path

namespace AssetEmbed

/-! ## §1. Names. -/

/-- How many bytes a name may have. -/
def nameLimit : Nat := 255

/-- Whether bytes can be the name of an entry: there are some and not too
many, there is no separator or zero byte, and it is neither `.` nor `..`. -/
def Name.isUsable (name : Name) : Bool :=
  name != [] && name != Path.dot && name != Path.dotDot && !name.contains Path.slash
    && !name.contains 0 && decide (name.length ≤ nameLimit)

/-- A name of an entry. -/
structure EntryName where
  bytes : Name
  usable : bytes.isUsable = true
deriving DecidableEq, Repr

/-- A place in a file tree: the names that lead to it from the top. -/
abbrev Location := List EntryName

/-! ## §2. Directories. -/

/-- The entries of a directory, one after another. -/
inductive Directory where
  | empty
  | file (name : EntryName) (content : List UInt8) (rest : Directory)
  | link (name : EntryName) (target : Path) (rest : Directory)
  | folder (name : EntryName) (inner : Directory) (rest : Directory)
deriving DecidableEq, Repr

/-- What a directory holds under a name. -/
inductive Entry where
  | file (content : List UInt8)
  | link (target : Path)
  | folder (inner : Directory)
deriving DecidableEq, Repr

namespace Directory

/-- A directory with one more entry in front. -/
def cons (name : EntryName) : Entry → Directory → Directory
  | .file content, rest => .file name content rest
  | .link target, rest => .link name target rest
  | .folder inner, rest => .folder name inner rest

/-- The entry under a name. -/
def find? : Directory → EntryName → Option Entry
  | .empty, _ => none
  | .file name content rest, query =>
    if query = name then some (.file content) else rest.find? query
  | .link name target rest, query =>
    if query = name then some (.link target) else rest.find? query
  | .folder name inner rest, query =>
    if query = name then some (.folder inner) else rest.find? query

/-- Puts an entry under a name, in place of an older one. -/
def put (name : EntryName) (entry : Entry) : Directory → Directory
  | .empty => cons name entry .empty
  | .file n content rest =>
    if n = name then cons name entry rest else .file n content (put name entry rest)
  | .link n target rest =>
    if n = name then cons name entry rest else .link n target (put name entry rest)
  | .folder n inner rest =>
    if n = name then cons name entry rest else .folder n inner (put name entry rest)

/-- Takes the entries under a name out. -/
def erase (name : EntryName) : Directory → Directory
  | .empty => .empty
  | .file n content rest =>
    if n = name then erase name rest else .file n content (erase name rest)
  | .link n target rest =>
    if n = name then erase name rest else .link n target (erase name rest)
  | .folder n inner rest =>
    if n = name then erase name rest else .folder n inner (erase name rest)

/-- Whatever holds of the empty directory, and of a directory with one more
entry, holds of all. -/
theorem induction_cons {motive : Directory → Prop} (empty : motive .empty)
    (cons : ∀ name entry rest, motive rest → motive (cons name entry rest))
    (d : Directory) : motive d := by
  induction d with
  | empty => exact empty
  | file name content rest ih => exact cons name (.file content) rest ih
  | link name target rest ih => exact cons name (.link target) rest ih
  | folder name inner rest _ ih => exact cons name (.folder inner) rest ih

theorem find?_cons (name : EntryName) (entry : Entry) (rest : Directory) (query : EntryName) :
    (cons name entry rest).find? query
      = if query = name then some entry else rest.find? query := by
  cases entry <;> rfl

theorem put_cons (name : EntryName) (entry : Entry) (n : EntryName) (e : Entry)
    (rest : Directory) :
    (cons n e rest).put name entry
      = if n = name then cons name entry rest else cons n e (rest.put name entry) := by
  cases e <;> rfl

theorem erase_cons (name n : EntryName) (e : Entry) (rest : Directory) :
    (cons n e rest).erase name
      = if n = name then rest.erase name else cons n e (rest.erase name) := by
  cases e <;> rfl

theorem find?_put (name : EntryName) (entry : Entry) (d : Directory) (query : EntryName) :
    (d.put name entry).find? query = if query = name then some entry else d.find? query := by
  induction d using induction_cons with
  | empty => simp only [put, find?_cons, find?]
  | cons n e rest ih =>
    rw [put_cons]
    by_cases hn : n = name
    · subst hn
      rw [if_pos rfl, find?_cons, find?_cons]
      split <;> rfl
    · rw [if_neg hn, find?_cons, find?_cons, ih]
      by_cases hq : query = n
      · rw [if_pos hq, if_neg (fun h => hn (hq.symm.trans h)), if_pos hq]
      · rw [if_neg hq, if_neg hq]

theorem find?_erase (name : EntryName) (d : Directory) (query : EntryName) :
    (d.erase name).find? query = if query = name then none else d.find? query := by
  induction d using induction_cons with
  | empty => simp only [erase, find?, ite_self]
  | cons n e rest ih =>
    rw [erase_cons]
    by_cases hn : n = name
    · subst hn
      rw [if_pos rfl, find?_cons, ih]
      split <;> rfl
    · rw [if_neg hn, find?_cons, find?_cons, ih]
      by_cases hq : query = n
      · rw [if_pos hq, if_neg (fun h => hn (hq.symm.trans h)), if_pos hq]
      · rw [if_neg hq, if_neg hq]

/-! ## §3. No name is held twice. -/

/-- Whether no directory in a directory, itself included, holds a name twice. -/
def Distinct : Directory → Prop
  | .empty => True
  | .file name _ rest => rest.find? name = none ∧ rest.Distinct
  | .link name _ rest => rest.find? name = none ∧ rest.Distinct
  | .folder name inner rest => rest.find? name = none ∧ inner.Distinct ∧ rest.Distinct

end Directory

/-- Whether what an entry holds holds no name twice. -/
def Entry.Distinct : Entry → Prop
  | .folder inner => inner.Distinct
  | _ => True

namespace Directory

theorem distinct_cons {name : EntryName} {entry : Entry} {rest : Directory} :
    (cons name entry rest).Distinct
      ↔ rest.find? name = none ∧ entry.Distinct ∧ rest.Distinct := by
  cases entry <;> simp [cons, Distinct, Entry.Distinct]

theorem Distinct.find? {d : Directory} (h : d.Distinct) {name : EntryName} {entry : Entry}
    (hf : d.find? name = some entry) : entry.Distinct := by
  induction d using induction_cons with
  | empty => cases hf
  | cons n e rest ih =>
    obtain ⟨_, he, hr⟩ := distinct_cons.1 h
    rw [find?_cons] at hf
    split at hf
    · cases hf; exact he
    · exact ih hr hf

theorem distinct_put {name : EntryName} {entry : Entry} {d : Directory} (h : d.Distinct)
    (he : entry.Distinct) : (d.put name entry).Distinct := by
  induction d using induction_cons with
  | empty => exact distinct_cons.2 ⟨rfl, he, trivial⟩
  | cons n e rest ih =>
    obtain ⟨hn, hne, hr⟩ := distinct_cons.1 h
    rw [put_cons]
    split
    · next heq => subst heq; exact distinct_cons.2 ⟨hn, he, hr⟩
    · next hd => exact distinct_cons.2 ⟨by rw [find?_put, if_neg hd]; exact hn, hne, ih hr⟩

theorem distinct_erase {name : EntryName} {d : Directory} (h : d.Distinct) :
    (d.erase name).Distinct := by
  induction d using induction_cons with
  | empty => trivial
  | cons n e rest ih =>
    obtain ⟨hn, hne, hr⟩ := distinct_cons.1 h
    rw [erase_cons]
    split
    · exact ih hr
    · next hd => exact distinct_cons.2 ⟨by rw [find?_erase, if_neg hd]; exact hn, hne, ih hr⟩

/-! ## §4. Places. -/

/-- The entry at a place, seen from a directory. -/
def entryAt : Location → Directory → Option Entry
  | [], d => some (.folder d)
  | name :: names, d =>
    match d.find? name, names with
    | some (.folder inner), names => entryAt names inner
    | some entry, [] => some entry
    | _, _ => none

/-- Changes the directory at a place; without one there nothing changes. -/
def update (change : Directory → Directory) : Location → Directory → Directory
  | [], d => change d
  | name :: names, d =>
    match d.find? name with
    | some (.folder inner) => d.put name (.folder (update change names inner))
    | _ => d

theorem distinct_update {change : Directory → Directory}
    (hc : ∀ d : Directory, d.Distinct → (change d).Distinct) {place : Location}
    {d : Directory} (h : d.Distinct) : (d.update change place).Distinct := by
  induction place generalizing d with
  | nil => exact hc d h
  | cons name names ih =>
    simp only [update]
    split
    · next inner hf => exact distinct_put h (ih (h.find? hf))
    · exact h

end Directory

end AssetEmbed
