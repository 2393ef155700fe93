/-
  AssetEmbed.Proofs.Symbols — the identifiers that stand for paths.

  A path becomes an identifier in two steps: every character but letters and
  digits becomes an underscore, and an underscore is put in front of what cannot
  begin an identifier.  The first step keeps the length and the second adds one
  character at most.  Paths that the first step tells apart are confused by the
  second only where the underscore in front of one is written out in the other.

  Main results:
    * `underscored_eq_self_iff` — what the first step leaves as it is.
    * `guardStart_eq_iff`       — what the second step confuses.
    * `symbolicName_exact`      — identifiers, and the paths that they stand for.
-/
import AssetEmbed.Proofs.Validation

namespace AssetEmbed

open Settings

instance (c : Char) : Decidable (IsLetter c) := inferInstanceAs (Decidable (_ ∨ _))

instance (c : Char) : Decidable (IsDecimal c) := inferInstanceAs (Decidable (_ ∧ _))

namespace Identifier

variable {cs ds : List Char}

/-! ## §1. The two steps. -/

/-- A text with an underscore for every character outside `[A-Za-z0-9]`. -/
def underscored (cs : List Char) : List Char :=
  cs.map fun c => if IsLetter c ∨ IsDecimal c then c else '_'

/-- Whether an underscore has to be put in front: there is nothing, or a digit. -/
def Unguarded (cs : List Char) : Prop := cs = [] ∨ ∃ c ∈ cs.head?, IsDecimal c

theorem replaceOther_eq (cs : List Char) : replaceOther cs = underscored cs := by
  refine List.map_congr_left fun c _ => ?_
  have hclass : isAlphanumeric c = true ↔ IsLetter c ∨ IsDecimal c := by
    rw [isAlphanumeric, Char.isAlphanum, Bool.or_eq_true, isAlpha_iff, isDigit_iff]
  exact if_congr hclass rfl rfl

theorem guardStart_of_unguarded (h : Unguarded cs) : guardStart cs = '_' :: cs := by
  cases cs with
  | nil => rfl
  | cons c rest =>
    obtain hnil | ⟨d, ⟨⟩, hdigit⟩ := h
    · cases hnil
    · exact if_pos (isDigit_iff.2 hdigit)

theorem guardStart_of_not_unguarded (h : ¬ Unguarded cs) : guardStart cs = cs := by
  cases cs with
  | nil => exact absurd (.inl rfl) h
  | cons c rest => exact if_neg fun hdigit => h (.inr ⟨c, rfl, isDigit_iff.1 hdigit⟩)

theorem not_unguarded_underscore (cs : List Char) : ¬ Unguarded ('_' :: cs) := by
  rintro (hnil | ⟨c, ⟨⟩, hdigit⟩)
  · cases hnil
  · exact absurd hdigit (by decide)

/-- The first step makes no digit and keeps those that are there. -/
theorem unguarded_underscored : Unguarded (underscored cs) ↔ Unguarded cs := by
  cases cs with
  | nil => exact Iff.rfl
  | cons c rest =>
    have hdigit : IsDecimal (if IsLetter c ∨ IsDecimal c then c else '_') ↔ IsDecimal c := by
      split
      · exact Iff.rfl
      · next hother => exact iff_of_false (by decide) fun h => hother (.inr h)
    simpa [Unguarded, underscored] using hdigit

/-- The first step leaves a text as it is just if it holds only letters, digits
and underscores. -/
theorem underscored_eq_self_iff : underscored cs = cs ↔ ∀ c ∈ cs, IsInner c := by
  have hfixed : underscored cs = cs.map id
      ↔ ∀ c ∈ cs, (if IsLetter c ∨ IsDecimal c then c else '_') = id c := List.map_inj_left
  rw [List.map_id] at hfixed
  refine hfixed.trans (forall₂_congr fun c _ => ?_)
  unfold IsInner
  rw [← or_assoc]
  constructor
  · intro h
    split at h
    · next hkept => exact .inl hkept
    · exact .inr h.symm
  · rintro (hkept | rfl)
    · exact if_pos hkept
    · exact ite_self _

/-- The second step confuses two texts just if one of them is the other with the
underscore in front that it is lacking. -/
theorem guardStart_eq_iff : guardStart cs = guardStart ds
    ↔ cs = ds ∨ (cs = '_' :: ds ∧ Unguarded ds) ∨ (ds = '_' :: cs ∧ Unguarded cs) := by
  constructor
  · intro h
    by_cases hcs : Unguarded cs <;> by_cases hds : Unguarded ds
    · rw [guardStart_of_unguarded hcs, guardStart_of_unguarded hds] at h
      exact .inl (List.cons.inj h).2
    · rw [guardStart_of_unguarded hcs, guardStart_of_not_unguarded hds] at h
      exact .inr (.inr ⟨h.symm, hcs⟩)
    · rw [guardStart_of_not_unguarded hcs, guardStart_of_unguarded hds] at h
      exact .inr (.inl ⟨h, hds⟩)
    · rw [guardStart_of_not_unguarded hcs, guardStart_of_not_unguarded hds] at h
      exact .inl h
  · rintro (rfl | ⟨rfl, hds⟩ | ⟨rfl, hcs⟩)
    · rfl
    · rw [guardStart_of_unguarded hds, guardStart_of_not_unguarded (not_unguarded_underscore ds)]
    · rw [guardStart_of_unguarded hcs, guardStart_of_not_unguarded (not_unguarded_underscore cs)]

/-! ## §2. Both steps. -/

theorem sanitize_eq (cs : List Char) : sanitize cs = guardStart (underscored cs) :=
  congrArg guardStart (replaceOther_eq cs)

theorem sanitize_mem_identifiers (cs : List Char) : sanitize cs ∈ identifiers :=
  isIdentifier_iff.1 (isIdentifier_sanitize cs)

/-- Identifiers stay as they are, and nothing else does. -/
theorem sanitize_eq_self_iff : sanitize cs = cs ↔ cs ∈ identifiers := by
  constructor
  · intro h
    exact h ▸ sanitize_mem_identifiers cs
  · intro h
    obtain ⟨hne, hinner, hhead⟩ := mem_identifiers_iff.1 h
    have hguarded : ¬ Unguarded cs := by
      rintro (hnil | ⟨c, hc, hdigit⟩)
      · exact hne hnil
      · exact hhead c hc hdigit
    rw [sanitize_eq, underscored_eq_self_iff.2 hinner, guardStart_of_not_unguarded hguarded]

theorem length_sanitize_of_unguarded (h : Unguarded cs) :
    (sanitize cs).length = cs.length + 1 := by
  rw [sanitize_eq, guardStart_of_unguarded (unguarded_underscored.2 h), List.length_cons,
    underscored, List.length_map]

theorem length_sanitize_of_not_unguarded (h : ¬ Unguarded cs) :
    (sanitize cs).length = cs.length := by
  rw [sanitize_eq, guardStart_of_not_unguarded (mt unguarded_underscored.1 h), underscored,
    List.length_map]

end Identifier

open Identifier

theorem toList_symbolicName (path : String) : (symbolicName path).toList = sanitize path.toList :=
  String.toList_ofList

theorem symbolicName_eq_iff {p q : String} :
    symbolicName p = symbolicName q ↔ sanitize p.toList = sanitize q.toList := by
  rw [← String.toList_inj, toList_symbolicName, toList_symbolicName]

theorem symbolicName_eq_self_iff {p : String} :
    symbolicName p = p ↔ p.toList ∈ identifiers := by
  rw [← String.toList_inj, toList_symbolicName, sanitize_eq_self_iff]

/-- The name of a path is an identifier, and it is the path itself just if that
is one.  It has as many characters as the path, and one more if the path is empty
or begins with a digit.  Two paths have one name just if they agree once every
character but letters and digits is an underscore, or one of them then is the
other with an underscore in front, where the other is empty or begins with a
digit. -/
theorem symbolicName_exact (p : String) :
    (symbolicName p).toList ∈ identifiers
      ∧ (symbolicName p = p ↔ p.toList ∈ identifiers)
      ∧ symbolicName (symbolicName p) = symbolicName p
      ∧ (Unguarded p.toList → (symbolicName p).length = p.length + 1)
      ∧ (¬ Unguarded p.toList → (symbolicName p).length = p.length)
      ∧ ∀ q, symbolicName p = symbolicName q
        ↔ underscored p.toList = underscored q.toList
          ∨ (underscored p.toList = '_' :: underscored q.toList
            ∧ Unguarded (underscored q.toList))
          ∨ (underscored q.toList = '_' :: underscored p.toList
            ∧ Unguarded (underscored p.toList)) := by
  have hname : (symbolicName p).toList ∈ identifiers := by
    rw [toList_symbolicName]
    exact sanitize_mem_identifiers p.toList
  refine ⟨hname, symbolicName_eq_self_iff, symbolicName_eq_self_iff.2 hname, fun h => ?_,
    fun h => ?_, fun q => ?_⟩
  · rw [← String.length_toList, toList_symbolicName, length_sanitize_of_unguarded h,
      String.length_toList]
  · rw [← String.length_toList, toList_symbolicName, length_sanitize_of_not_unguarded h,
      String.length_toList]
  · rw [symbolicName_eq_iff, sanitize_eq, sanitize_eq, guardStart_eq_iff]

/-- A digit gets an underscore in front, and so has the name of the same digit
behind a hyphen. -/
theorem symbolicName_exact_digit :
    Unguarded "9".toList ∧ (symbolicName "9").length = "9".length + 1
      ∧ symbolicName "9" = symbolicName "-9" := by
  obtain ⟨-, -, -, hlonger, -, hsame⟩ := symbolicName_exact "9"
  have hdigit : Unguarded "9".toList := .inr ⟨'9', rfl, by decide⟩
  have hkept : underscored "9".toList = "9".toList := by decide
  refine ⟨hdigit, hlonger hdigit, (hsame "-9").2 (.inr (.inr ⟨by decide, ?_⟩))⟩
  rw [hkept]
  exact hdigit

end AssetEmbed
