/-
  AssetEmbed.Toml.Table — tables grow by keys and headers.

  A header opens a table once; only a table that other headers passed through
  can still be opened.  A dotted key adds to tables that dotted keys made, and
  never to one with a header of its own or to one between braces.
-/
import AssetEmbed.Toml.Value

namespace AssetEmbed.Toml.Table

/-! ## §1. Keys. -/

/-- Adds a value under a dotted key.  `isOpen` says whether this very table may
take a key; a table that was passed through by a header may not, though tables
made by dotted keys inside it may. -/
def add (value : Value) (isOpen : Bool) : List String → Table → Option Table
  | [], _ => none
  | [key], entries =>
    if isOpen ∧ (entries.lookup key).isNone then some (entries ++ [(key, value)]) else none
  | key :: keys, entries =>
    match entries.lookup key with
    | none => do
      let inner ← add value true keys []
      some (entries ++ [(key, .table .dotted inner)])
    | some (.table .dotted inner) => do
      let inner ← add value true keys inner
      some (Keyed.put key (.table .dotted inner) entries)
    | some (.table .implied inner) => do
      let inner ← add value false keys inner
      some (Keyed.put key (.table .implied inner) entries)
    | some (.tables items) => do
      let inner ← add value false keys (← items.getLast?)
      some (Keyed.put key (.tables (items.dropLast ++ [inner])) entries)
    | _ => none

/-- The table with given keys and values, complete. -/
def ofPairs : List (List String × Value) → Table → Option Table
  | [], entries => some entries
  | (keys, value) :: pairs, entries => do ofPairs pairs (← add value true keys entries)

/-! ## §2. Headers. -/

/-- Changes the table below some keys.  The last table under a shared header
stands for all of them; tables that are missing are passed through. -/
def modifyAt (change : Table → Option Table) : List String → Table → Option Table
  | [], entries => change entries
  | key :: keys, entries =>
    match entries.lookup key with
    | none => do
      let inner ← modifyAt change keys []
      some (entries ++ [(key, .table .implied inner)])
    | some (.table .inline _) => none
    | some (.table kind inner) => do
      let inner ← modifyAt change keys inner
      some (Keyed.put key (.table kind inner) entries)
    | some (.tables items) => do
      let inner ← modifyAt change keys (← items.getLast?)
      some (Keyed.put key (.tables (items.dropLast ++ [inner])) entries)
    | _ => none

/-- Opens a table by its own header; it then comes last. -/
def openTable (key : String) (entries : Table) : Option Table :=
  match entries.lookup key with
  | none => some (entries ++ [(key, .table .header [])])
  | some (.table .implied inner) =>
    some (Keyed.erase key entries ++ [(key, .table .header inner)])
  | _ => none

/-- Opens one more table under a shared header. -/
def openElement (key : String) (entries : Table) : Option Table :=
  match entries.lookup key with
  | none => some (entries ++ [(key, .tables [[]])])
  | some (.tables items) => some (Keyed.put key (.tables (items ++ [[]])) entries)
  | _ => none

/-! ## §3. Statements. -/

/-- A line of a document that says something. -/
inductive Statement where
  | pair (keys : List String) (value : Value)
  | header (keys : List String)
  | sharedHeader (keys : List String)

/-- Applies `change` at the last key to the table that the keys before it name. -/
def modifyParent (change : String → Table → Option Table) (keys : List String)
    (entries : Table) : Option Table := do
  modifyAt (change (← keys.getLast?)) keys.dropLast entries

/-- The table that statements describe; `current` names the one last opened. -/
def ofStatements : List String → List Statement → Table → Option Table
  | _, [], entries => some entries
  | current, .pair keys value :: rest, entries => do
    ofStatements current rest (← modifyAt (add value true keys) current entries)
  | _, .header keys :: rest, entries => do
    ofStatements keys rest (← modifyParent openTable keys entries)
  | _, .sharedHeader keys :: rest, entries => do
    ofStatements keys rest (← modifyParent openElement keys entries)

end AssetEmbed.Toml.Table
