/-
  AssetEmbed.Proofs.Loading.Distinct — no table of a document holds a key twice.

  A key comes into a table only where a look-up has found none, and a table is
  changed only by a value that takes the place of an older one.  So a table
  stays without double keys from one statement to the next, with all tables
  below it, and so does what is written between braces.

  Main results:
    * `Distinct.put`         — a value under a key.
    * `Distinct.modifyAt`    — a change somewhere below.
    * `distinct_value`       — a value as it is read.
    * `distinct_parse`       — a whole document.
-/
import AssetEmbed.Toml.Document
import Mathlib.Data.List.Nodup

namespace AssetEmbed

namespace Toml

/-! ## §1. Values. -/

/-- Whether no table in a value holds a key twice. -/
inductive Value.Distinct : Value → Prop
  | text (content : String) : Distinct (.text content)
  | integer (value : Int) : Distinct (.integer value)
  | float : Distinct .float
  | boolean : Distinct .boolean
  | dateTime : Distinct .dateTime
  | array {items : List Value} (h : ∀ v ∈ items, Distinct v) : Distinct (.array items)
  | table {kind : TableKind} {entries : List (String × Value)}
      (hkeys : (entries.map Prod.fst).Nodup) (hvalues : ∀ entry ∈ entries, Distinct entry.2) :
      Distinct (.table kind entries)
  | tables {items : List (List (String × Value))}
      (hkeys : ∀ entries ∈ items, (entries.map Prod.fst).Nodup)
      (hvalues : ∀ entries ∈ items, ∀ entry ∈ entries, Distinct entry.2) :
      Distinct (.tables items)

namespace Table

/-- Whether a table holds no key twice, and no table below it does. -/
structure Distinct (t : Table) : Prop where
  keys : (t.map Prod.fst).Nodup
  values : ∀ entry ∈ t, entry.2.Distinct

theorem distinct_nil : Distinct [] where
  keys := List.nodup_nil
  values _ h := by cases h

theorem distinct_table_iff {kind : TableKind} {t : Table} :
    (Value.table kind t).Distinct ↔ Distinct t := by
  constructor
  · intro h
    cases h with
    | table hkeys hvalues => exact ⟨hkeys, hvalues⟩
  · rintro ⟨hkeys, hvalues⟩
    exact .table hkeys hvalues

theorem distinct_tables_iff {items : List Table} :
    (Value.tables items).Distinct ↔ ∀ t ∈ items, Distinct t := by
  constructor
  · intro h t ht
    cases h with
    | tables hkeys hvalues => exact ⟨hkeys t ht, hvalues t ht⟩
  · intro h
    exact .tables (fun t ht => (h t ht).keys) fun t ht => (h t ht).values

section
variable {t : Table} {key : String} {v : Value}

theorem Distinct.of_lookup (h : t.Distinct) (hv : t.lookup key = some v) : v.Distinct :=
  h.values _ (Keyed.mem_of_lookup hv)

theorem Distinct.put (h : t.Distinct) (hv : v.Distinct) : Distinct (Keyed.put key v t) where
  keys := Keyed.nodup_put v h.keys
  values entry hentry := by
    rcases Keyed.mem_put hentry with rfl | hentry
    · exact hv
    · exact h.values entry hentry

/-- A new key can come at the end. -/
theorem Distinct.concat (h : t.Distinct) (hv : v.Distinct) (hnew : t.lookup key = none) :
    Distinct (t ++ [(key, v)]) := by
  rw [← Keyed.map_fst_put_new v hnew]
  exact h.put hv

/-- A key that has been taken out can come at the end. -/
theorem Distinct.moved (h : t.Distinct) (hv : v.Distinct) :
    Distinct (Keyed.erase key t ++ [(key, v)]) := by
  have hkept : Distinct (Keyed.erase key t) :=
    ⟨h.keys.sublist (List.filter_sublist.map _),
      fun entry hentry => h.values entry (List.mem_filter.1 hentry).1⟩
  refine hkept.concat hv (Keyed.lookup_eq_none_iff.2 fun hmem => ?_)
  obtain ⟨entry, hentry, rfl⟩ := List.mem_map.1 hmem
  simpa using (List.mem_filter.1 hentry).2

/-- A table can take the place of another one under its key. -/
theorem Distinct.replace {kind kind' : TableKind} {old inner : Table} (h : t.Distinct)
    (hold : t.lookup key = some (.table kind old))
    (hinner : Distinct old → Distinct inner) : Distinct (Keyed.put key (.table kind' inner) t) :=
  h.put (distinct_table_iff.2 (hinner (distinct_table_iff.1 (h.of_lookup hold))))

/-- A table can take the place of the last one under a shared header. -/
theorem Distinct.replaceLast {items : List Table} {last inner : Table} (h : t.Distinct)
    (hold : t.lookup key = some (.tables items)) (hlast : items.getLast? = some last)
    (hinner : Distinct last → Distinct inner) :
    Distinct (Keyed.put key (.tables (items.dropLast ++ [inner])) t) := by
  have hitems := distinct_tables_iff.1 (h.of_lookup hold)
  refine h.put (distinct_tables_iff.2 fun item hitem => ?_)
  rcases List.mem_append.1 hitem with hitem | hitem
  · exact hitems item (List.dropLast_subset _ hitem)
  · rw [List.mem_singleton.1 hitem]
    exact hinner (hitems last (List.mem_of_getLast? hlast))

end

/-! ## §2. Changes. -/

section
variable {t t' : Table} {v : Value}

/-- A value under a dotted key. -/
theorem Distinct.add {keys : List String} {isOpen : Bool} (hv : v.Distinct) (ht : t.Distinct)
    (h : add v isOpen keys t = some t') : t'.Distinct := by
  induction keys generalizing isOpen t t' with
  | nil => cases h
  | cons key keys ih =>
    cases keys with
    | nil =>
      rw [Table.add] at h
      split at h
      · next hnew =>
        cases h
        exact ht.concat hv (Option.isNone_iff_eq_none.1 hnew.2)
      · cases h
    | cons next keys =>
      rw [Table.add] at h
      · split at h
        · next hnew =>
          obtain ⟨inner, hinner, h⟩ := Option.bind_eq_some_iff.1 h
          cases h
          exact ht.concat (distinct_table_iff.2 (ih distinct_nil hinner)) hnew
        · next hold =>
          obtain ⟨inner, hinner, h⟩ := Option.bind_eq_some_iff.1 h
          cases h
          exact ht.replace hold fun hbefore => ih hbefore hinner
        · next hold =>
          obtain ⟨inner, hinner, h⟩ := Option.bind_eq_some_iff.1 h
          cases h
          exact ht.replace hold fun hbefore => ih hbefore hinner
        · next hold =>
          obtain ⟨last, hlast, h⟩ := Option.bind_eq_some_iff.1 h
          obtain ⟨inner, hinner, h⟩ := Option.bind_eq_some_iff.1 h
          cases h
          exact ht.replaceLast hold hlast fun hbefore => ih hbefore hinner
        · cases h
      · intro h
        cases h

theorem Distinct.ofPairs {pairs : List (List String × Value)}
    (hpairs : ∀ pair ∈ pairs, pair.2.Distinct) (ht : t.Distinct)
    (h : ofPairs pairs t = some t') : t'.Distinct := by
  induction pairs generalizing t with
  | nil =>
    cases h
    exact ht
  | cons pair pairs ih =>
    rw [List.forall_mem_cons] at hpairs
    obtain ⟨between, hadd, h⟩ := Option.bind_eq_some_iff.1 h
    exact ih hpairs.2 (ht.add hpairs.1 hadd) h

/-- A change at the end of some keys keeps all tables on the way without double
keys, if it keeps the table there so. -/
theorem Distinct.modifyAt {change : Table → Option Table}
    (hchange : ∀ {a b : Table}, a.Distinct → change a = some b → b.Distinct)
    {keys : List String} (ht : t.Distinct) (h : modifyAt change keys t = some t') :
    t'.Distinct := by
  induction keys generalizing t t' with
  | nil => exact hchange ht h
  | cons key keys ih =>
    rw [Table.modifyAt] at h
    split at h
    · next hnew =>
      obtain ⟨inner, hinner, h⟩ := Option.bind_eq_some_iff.1 h
      cases h
      exact ht.concat (distinct_table_iff.2 (ih distinct_nil hinner)) hnew
    · cases h
    · next hold =>
      obtain ⟨inner, hinner, h⟩ := Option.bind_eq_some_iff.1 h
      cases h
      exact ht.replace hold fun hbefore => ih hbefore hinner
    · next hold =>
      obtain ⟨last, hlast, h⟩ := Option.bind_eq_some_iff.1 h
      obtain ⟨inner, hinner, h⟩ := Option.bind_eq_some_iff.1 h
      cases h
      exact ht.replaceLast hold hlast fun hbefore => ih hbefore hinner
    · cases h

theorem Distinct.openTable {key : String} (ht : t.Distinct) (h : openTable key t = some t') :
    t'.Distinct := by
  unfold Table.openTable at h
  split at h
  · next hnew =>
    cases h
    exact ht.concat (distinct_table_iff.2 distinct_nil) hnew
  · next inner hold =>
    cases h
    exact ht.moved (distinct_table_iff.2 (distinct_table_iff.1 (ht.of_lookup hold)))
  · cases h

theorem Distinct.openElement {key : String} (ht : t.Distinct)
    (h : openElement key t = some t') : t'.Distinct := by
  unfold Table.openElement at h
  split at h
  · next hnew =>
    cases h
    refine ht.concat (distinct_tables_iff.2 fun item hitem => ?_) hnew
    rw [List.mem_singleton.1 hitem]
    exact distinct_nil
  · next items hold =>
    cases h
    refine ht.put (distinct_tables_iff.2 fun item hitem => ?_)
    rcases List.mem_append.1 hitem with hitem | hitem
    · exact distinct_tables_iff.1 (ht.of_lookup hold) item hitem
    · rw [List.mem_singleton.1 hitem]
      exact distinct_nil
  · cases h

theorem Distinct.modifyParent {change : String → Table → Option Table}
    (hchange : ∀ {key : String} {a b : Table}, a.Distinct → change key a = some b → b.Distinct)
    {keys : List String} (ht : t.Distinct) (h : modifyParent change keys t = some t') :
    t'.Distinct := by
  obtain ⟨last, -, h⟩ := Option.bind_eq_some_iff.1 h
  exact ht.modifyAt (fun ha hb => hchange ha hb) h

/-- Whether the value of a statement, if it has one, is without double keys. -/
def Statement.Distinct : Statement → Prop
  | .pair _ value => value.Distinct
  | .header _ => True
  | .sharedHeader _ => True

/-- From one statement to the next no table comes to hold a key twice. -/
theorem Distinct.ofStatements {statements : List Statement} {current : List String}
    (hstatements : ∀ s ∈ statements, s.Distinct) (ht : t.Distinct)
    (h : ofStatements current statements t = some t') : t'.Distinct := by
  induction statements generalizing current t with
  | nil =>
    rw [Table.ofStatements] at h
    cases h
    exact ht
  | cons statement rest ih =>
    rw [List.forall_mem_cons] at hstatements
    cases statement with
    | pair keys value =>
      obtain ⟨between, hnext, h⟩ := Option.bind_eq_some_iff.1 h
      exact ih hstatements.2 (ht.modifyAt (fun ha hb => ha.add hstatements.1 hb) hnext) h
    | header keys =>
      obtain ⟨between, hnext, h⟩ := Option.bind_eq_some_iff.1 h
      exact ih hstatements.2 (ht.modifyParent Distinct.openTable hnext) h
    | sharedHeader keys =>
      obtain ⟨between, hnext, h⟩ := Option.bind_eq_some_iff.1 h
      exact ih hstatements.2 (ht.modifyParent Distinct.openElement hnext) h

end

end Table

/-! ## §3. Reading. -/

/-- Whether everything that a reader reads has a property. -/
def Reads {α : Type} (read : Reader α) (P : α → Prop) : Prop :=
  ∀ ⦃cs : List Char⦄ ⦃a : α⦄ ⦃rest : List Char⦄, read cs = some (a, rest) → P a

/-- The items that a round reads. -/
def Round.items {α : Type} : Round α → List α
  | .more items _ => items
  | .last items _ => items
  | .refuse => []

/-- What holds of the items of every round holds of all items. -/
theorem reads_repeated {α : Type} {round : List Char → Round α} {P : α → Prop}
    (h : ∀ cs, ∀ a ∈ (round cs).items, P a) : Reads (repeated round) fun items =>
      ∀ a ∈ items, P a := by
  have hwithin : ∀ (bound : List Char) (done : List α), (∀ a ∈ done, P a) →
      Reads (repeatWithin round bound done) fun items => ∀ a ∈ items, P a := by
    intro bound
    induction bound with
    | nil => intro done _ cs items rest hread; cases hread
    | cons _ bound ih =>
      intro done hdone cs items rest hread
      have hround := h cs
      rw [repeatWithin] at hread
      split at hread
      · next more _ hmore =>
        rw [hmore] at hround
        refine ih _ (fun a ha => ?_) hread
        rcases List.mem_append.1 ha with ha | ha
        · exact hround a (List.mem_reverse.1 ha)
        · exact hdone a ha
      · next last _ hlast =>
        rw [hlast] at hround
        cases hread
        intro a ha
        rcases List.mem_append.1 ha with ha | ha
        · exact hdone a (List.mem_reverse.1 ha)
        · exact hround a ha
      · cases hread
  intro cs items rest hread
  exact hwithin _ [] (fun a ha => by cases ha) hread

theorem distinct_integer? {value : Int} {v : Value} (h : integer? value = some v) :
    v.Distinct := by
  unfold integer? at h
  dsimp only at h
  split at h
  · cases h
    exact .integer value
  · cases h

theorem reads_decimal (negative : Bool) : Reads (decimal negative) Value.Distinct := by
  intro cs v rest h
  obtain ⟨⟨whole, _⟩, -, h⟩ := Option.bind_eq_some_iff.1 h
  dsimp only at h
  split at h
  · obtain ⟨⟨fraction, _⟩, -, h⟩ := Option.bind_eq_some_iff.1 h
    obtain ⟨⟨exponent, _⟩, -, h⟩ := Option.bind_eq_some_iff.1 h
    dsimp only at h
    split at h <;> cases h
    exact .float
  · obtain ⟨value, hvalue, h⟩ := Option.bind_eq_some_iff.1 h
    cases h
    exact distinct_integer? hvalue

theorem reads_based (base : Nat) (isDigit : Char → Bool) :
    Reads (based base isDigit) Value.Distinct := by
  intro cs v rest h
  obtain ⟨⟨ds, _⟩, -, h⟩ := Option.bind_eq_some_iff.1 h
  obtain ⟨value, hvalue, h⟩ := Option.bind_eq_some_iff.1 h
  cases h
  exact distinct_integer? hvalue

theorem reads_number : Reads number Value.Distinct := by
  intro cs v rest h
  unfold number at h
  split at h
  · exact reads_based _ _ h
  · exact reads_based _ _ h
  · exact reads_based _ _ h
  · split at h
    · cases h
      exact .float
    · cases h
      exact .float
    · exact reads_decimal _ h

theorem reads_scalar : Reads scalar Value.Distinct := by
  intro cs v rest h
  unfold scalar at h
  split at h
  · obtain ⟨_, -, h⟩ := Option.map_eq_some_iff.1 h
    cases h
    exact .dateTime
  · split at h
    · obtain ⟨_, -, h⟩ := Option.map_eq_some_iff.1 h
      cases h
      exact .dateTime
    · exact reads_number h

section
variable {read : Reader Value}

theorem reads_pair (hread : Reads read Value.Distinct) : Reads (pair read) (·.2.Distinct) := by
  intro cs p rest h
  obtain ⟨⟨keys, cs⟩, -, h⟩ := Option.bind_eq_some_iff.1 h
  obtain ⟨cs, -, h⟩ := Option.bind_eq_some_iff.1 h
  obtain ⟨⟨v, cs⟩, hv, h⟩ := Option.bind_eq_some_iff.1 h
  cases h
  exact hread hv

theorem items_arrayRound (hread : Reads read Value.Distinct) (cs : List Char) :
    ∀ v ∈ (arrayRound read cs).items, v.Distinct := by
  unfold arrayRound
  split
  · simp [Round.items]
  · split
    · simp [Round.items]
    · next v rest hv =>
      have hdistinct : v.Distinct := hread hv
      split <;> simp [Round.items, hdistinct]

theorem reads_bracePairs (hread : Reads read Value.Distinct) :
    Reads (bracePairs read) fun pairs => ∀ p ∈ pairs, p.2.Distinct := by
  intro cs pairs rest h
  unfold bracePairs at h
  split at h
  · cases h
    simp
  · refine reads_repeated (fun cs p hp => ?_) h
    unfold braceRound at hp
    split at hp
    · simp [Round.items] at hp
    · next q rest hq =>
      have hdistinct := reads_pair hread hq
      split at hp
      · rw [List.mem_singleton.1 hp]
        exact hdistinct
      · rw [List.mem_singleton.1 hp]
        exact hdistinct
      · simp [Round.items] at hp

end

/-- A value holds no key twice as it is read. -/
theorem distinct_value (depth : Nat) : Reads (value depth) Value.Distinct := by
  -- what a list or a table holds is read with less depth
  induction depth using Nat.strongRecOn with
  | ind depth ih =>
    intro cs v rest h
    unfold value at h
    split at h
    · obtain ⟨_, -, h⟩ := Option.map_eq_some_iff.1 h
      cases h
      exact .text _
    · obtain ⟨_, -, h⟩ := Option.map_eq_some_iff.1 h
      cases h
      exact .text _
    · cases h
      exact .boolean
    · cases h
      exact .boolean
    · next depth _ =>
      obtain ⟨⟨items, _⟩, hitems, h⟩ := Option.map_eq_some_iff.1 h
      cases h
      have hdepth := ih depth (Nat.lt_succ_self depth)
      exact .array (reads_repeated (items_arrayRound hdepth) hitems)
    · next depth _ =>
      obtain ⟨⟨pairs, _⟩, hpairs, h⟩ := Option.bind_eq_some_iff.1 h
      obtain ⟨entries, hentries, h⟩ := Option.bind_eq_some_iff.1 h
      cases h
      have hdepth := ih depth (Nat.lt_succ_self depth)
      have hdistinct := reads_bracePairs hdepth hpairs
      exact Table.distinct_table_iff.2 (Table.distinct_nil.ofPairs hdistinct hentries)
    · exact reads_scalar h

theorem reads_statement : Reads statement Table.Statement.Distinct := by
  intro cs s rest h
  unfold statement at h
  split at h
  · obtain ⟨⟨keys, _⟩, -, h⟩ := Option.bind_eq_some_iff.1 h
    obtain ⟨_, -, h⟩ := Option.bind_eq_some_iff.1 h
    cases h
    trivial
  · obtain ⟨⟨keys, _⟩, -, h⟩ := Option.bind_eq_some_iff.1 h
    obtain ⟨_, -, h⟩ := Option.bind_eq_some_iff.1 h
    cases h
    trivial
  · obtain ⟨⟨⟨keys, v⟩, _⟩, hpair, h⟩ := Option.bind_eq_some_iff.1 h
    obtain ⟨_, -, h⟩ := Option.bind_eq_some_iff.1 h
    cases h
    exact reads_pair (distinct_value _) hpair

theorem items_documentRound (cs : List Char) :
    ∀ s ∈ (documentRound cs).items, s.Distinct := by
  unfold documentRound
  split
  · simp [Round.items]
  · split
    · simp [Round.items]
    · split
      · next hs => simpa [Round.items] using reads_statement hs
      · simp [Round.items]

/-- No table of a document holds a key twice. -/
theorem distinct_parse {text : String} {t : Table} (h : parse text = some t) : t.Distinct := by
  obtain ⟨⟨statements, _⟩, hread, h⟩ := Option.bind_eq_some_iff.1 h
  exact Table.distinct_nil.ofStatements (reads_repeated items_documentRound hread) h

end Toml

end AssetEmbed
