/-
  AssetEmbed.Order.Keyed — lists of keyed values in order of insertion.

  A keyed list remembers where a key was first put; putting it again replaces
  its value in place.

  Main results:
    * `lookup_put`      — what a look-up finds after a put.
    * `map_fst_put_new` — a new key goes to the end.
    * `nodup_put`       — no key comes to be there twice.
-/

namespace AssetEmbed

/-- Values under text keys, in order of insertion. -/
abbrev Keyed (α : Type) := List (String × α)

namespace Keyed

variable {α : Type}

/-- Gives `key` the value `value`, in its old place or else at the end. -/
def put (key : String) (value : α) : Keyed α → Keyed α
  | [] => [(key, value)]
  | entry :: rest =>
    if entry.1 = key then (key, value) :: rest else entry :: put key value rest

/-- Takes `key` out. -/
def erase (key : String) (entries : Keyed α) : Keyed α :=
  entries.filter fun entry => entry.1 != key

theorem lookup_put (key : String) (value : α) (entries : Keyed α) (query : String) :
    (put key value entries).lookup query
      = if query = key then some value else entries.lookup query := by
  induction entries with
  | nil =>
    by_cases h : query = key
    · simp [put, h]
    · have hb : (query == key) = false := by simpa using h
      simp [put, List.lookup_cons, h, hb]
  | cons entry rest ih =>
    obtain ⟨k, v⟩ := entry
    simp only [put]
    by_cases hk : k = key
    · subst hk
      by_cases h : query = k
      · simp [h]
      · have hb : (query == k) = false := by simpa using h
        simp [List.lookup_cons, h, hb]
    · simp only [hk, if_false, List.lookup_cons]
      by_cases h : query = k
      · subst h
        simp [hk]
      · have hb : (query == k) = false := by simpa using h
        simp only [hb]
        exact ih

theorem map_fst_put_new {key : String} {entries : Keyed α} (value : α)
    (h : entries.lookup key = none) :
    put key value entries = entries ++ [(key, value)] := by
  induction entries with
  | nil => rfl
  | cons entry rest ih =>
    obtain ⟨k, v⟩ := entry
    simp only [List.lookup_cons] at h
    split at h
    · cases h
    · next hk =>
      have hne : ¬ k = key := by
        intro he
        simp [he] at hk
      simp [put, hne, ih h]

section
variable {key : String} {entries : Keyed α}

theorem lookup_eq_none_iff : entries.lookup key = none ↔ key ∉ entries.map Prod.fst := by
  rw [List.lookup_eq_none_iff, List.mem_map]
  constructor
  · rintro h ⟨entry, hentry, rfl⟩
    simpa using h entry hentry
  · intro h entry hentry
    simp only [bne_iff_ne]
    rintro rfl
    exact h ⟨entry, hentry, rfl⟩

theorem mem_of_lookup {value : α} (h : entries.lookup key = some value) :
    (key, value) ∈ entries := by
  induction entries with
  | nil => cases h
  | cons entry rest ih =>
    rw [List.lookup_cons] at h
    split at h
    · next hkey =>
      cases h
      rw [beq_iff_eq.1 hkey]
      exact List.mem_cons_self
    · exact List.mem_cons_of_mem _ (ih h)

theorem mem_put {value : α} {entry : String × α} (h : entry ∈ put key value entries) :
    entry = (key, value) ∨ entry ∈ entries := by
  induction entries with
  | nil => exact .inl (List.mem_singleton.1 h)
  | cons first rest ih =>
    rw [put] at h
    split at h
    · rcases List.mem_cons.1 h with rfl | h
      · exact .inl rfl
      · exact .inr (List.mem_cons_of_mem _ h)
    · rcases List.mem_cons.1 h with rfl | h
      · exact .inr List.mem_cons_self
      · exact (ih h).imp_right (List.mem_cons_of_mem _)

theorem nodup_put (value : α) (h : (entries.map Prod.fst).Nodup) :
    ((put key value entries).map Prod.fst).Nodup := by
  induction entries with
  | nil => exact List.nodup_cons.2 ⟨List.not_mem_nil, List.nodup_nil⟩
  | cons first rest ih =>
    rw [List.map_cons, List.nodup_cons] at h
    rw [put]
    split
    · next hkey => exact List.nodup_cons.2 ⟨hkey ▸ h.1, h.2⟩
    · next hkey =>
      refine List.nodup_cons.2 ⟨fun hmem => ?_, ih h.2⟩
      obtain ⟨entry, hentry, hfirst⟩ := List.mem_map.1 hmem
      rcases mem_put hentry with rfl | hentry
      · exact hkey hfirst.symm
      · exact h.1 (hfirst ▸ List.mem_map_of_mem hentry)

end

end Keyed

end AssetEmbed
