/-
  AssetEmbed.Proofs.CommandLine.Options — what the options of a command line give.

  An option has its own name and its own letter, so that a name found at one place
  is found at any other at which the option can be given.  Taking an option in adds
  it to what is given, and is refused only if the option is there already.  What is
  given at several places is put together by a monoid in which later options win.

  Main results:
    * `bind_eq_ok`                 — steps that can fail.
    * `Key.ofLong?_eq_some_iff`    — options by their names, and by their letters.
    * `Given.adds_record`          — taking in the value of an option.
    * `Given.adds_raise`           — taking in an option without a value.
-/
import AssetEmbed.CommandLine.Invocation

namespace AssetEmbed

/-- Two steps succeed only if both do. -/
theorem bind_eq_ok {ε α β : Type} {x : Except ε α} {f : α → Except ε β} {b : β}
    (h : x >>= f = .ok b) : ∃ a, x = .ok a ∧ f a = .ok b := by
  cases x with
  | error e => cases h
  | ok a => exact ⟨a, rfl, h⟩

namespace CommandLine

/-! ## §1. Names. -/

namespace Key

variable {level : Level} {key : Key}

theorem mem_all (key : Key) : key ∈ all := by
  cases key <;> decide

/-- No two options have one name. -/
theorem ofLong?_longName : key.isAt level = true → ofLong? level key.longName = some key := by
  cases level <;> cases key <;> decide

theorem ofLong?_eq_some_iff {name : String} :
    ofLong? level name = some key ↔ key.isAt level = true ∧ key.longName = name := by
  constructor
  · intro h
    have hfound := List.find?_some h
    rwa [Bool.and_eq_true, beq_iff_eq] at hfound
  · rintro ⟨hat, rfl⟩
    exact ofLong?_longName hat

/-- No two options have one letter. -/
theorem ofShort?_shortName {c : Char} (hat : key.isAt level = true)
    (hname : key.shortName? = some c) : ofShort? level c = some key := by
  cases level <;> cases key <;>
    first
    | (cases hname; done)
    | (cases hname; rfl)
    | cases hat

theorem ofShort?_eq_some_iff {c : Char} :
    ofShort? level c = some key ↔ key.isAt level = true ∧ key.shortName? = some c := by
  constructor
  · intro h
    have hfound := List.find?_some h
    rwa [Bool.and_eq_true, beq_iff_eq] at hfound
  · rintro ⟨hat, hname⟩
    exact ofShort?_shortName hat hname

/-- All options in front of a subcommand but the version can be given behind it. -/
theorem isAt_of_top (h : key.isAt .top = true) (hversion : key ≠ .version) :
    key.isAt level = true := by
  revert h hversion
  cases level <;> cases key <;> decide

theorem ne_json_of_top (h : key.isAt .top = true) : key ≠ .json := by
  rintro rfl
  cases h

end Key

/-! ## §2. What is given. -/

namespace Given

variable {g h u v t t' : Given} {key : Key}

/-- Whether an option is given. -/
def gives (g : Given) : Key → Bool
  | .color => g.color.isSome
  | .config => g.config.isSome
  | .verbose => g.verbose
  | .quiet => g.quiet
  | .webDir => g.overrides.webDir.isSome
  | .outputDir => g.overrides.outputDir.isSome
  | .scope => g.overrides.scope.isSome
  | .mode => g.overrides.mode.isSome
  | .target => g.overrides.target.isSome
  | .indexName => g.overrides.indexName.isSome
  | .bytesPerLine => g.overrides.bytesPerLine.isSome
  | .json => g.json
  | .help => false
  | .version => false

/-- No option is given twice. -/
def Apart (g h : Given) : Prop := ∀ key, g.gives key = true → h.gives key = false

/-- No option is given but one that the subcommand has for itself. -/
def Own (g : Given) : Prop := ∀ key, g.gives key = true → key = .json

/-- Nothing is given that only a subcommand takes. -/
def Plain (g : Given) : Prop := g.json = false ∧ g.paths = []

instance (g h : Given) : Decidable (g.Apart h) :=
  decidable_of_iff (∀ key ∈ Key.all, g.gives key = true → h.gives key = false)
    ⟨fun hall key => hall key (Key.mem_all key), fun hapart key _ => hapart key⟩

/-- What is given by later arguments after what is given by earlier ones. -/
def after (later earlier : Given) : Given where
  color := later.color <|> earlier.color
  config := later.config <|> earlier.config
  verbose := later.verbose || earlier.verbose
  quiet := later.quiet || earlier.quiet
  overrides := later.overrides.merge earlier.overrides
  json := later.json || earlier.json
  paths := earlier.paths ++ later.paths

theorem gives_after : (h.after g).gives key = (h.gives key || g.gives key) := by
  cases key <;> simp [gives, after, Overrides.merge]

theorem after_assoc : (v.after u).after g = v.after (u.after g) := by
  simp [after, Overrides.merge, Bool.or_assoc, Option.or_assoc]

theorem empty_after : ({} : Given).after g = g := by
  simp [after, Overrides.merge]

theorem after_empty : g.after {} = g := by
  simp [after, Overrides.merge]

theorem apart_comm : g.Apart h ↔ h.Apart g := by
  have hswap : ∀ {g h : Given}, g.Apart h → h.Apart g := by
    intro g h hapart key hgives
    cases hother : g.gives key with
    | false => rfl
    | true => exact hgives.symm.trans (hapart key hother)
  exact ⟨hswap, hswap⟩

theorem after_apart_iff : (h.after g).Apart u ↔ h.Apart u ∧ g.Apart u := by
  unfold Apart
  simp only [gives_after, Bool.or_eq_true]
  grind

theorem apart_after_iff : u.Apart (h.after g) ↔ u.Apart h ∧ u.Apart g := by
  rw [apart_comm, after_apart_iff, apart_comm, apart_comm (g := g)]

/-- Where no option is given, none is given twice. -/
theorem apart_of_none (hu : ∀ key, u.gives key = false) : g.Apart u := fun key _ => hu key

theorem apart_empty : g.Apart {} := apart_of_none fun key => by cases key <;> rfl

/-- A step adds some options: it makes them known, and is refused if one of them is
known. -/
def Adds (f : Given → Except Stop Given) (u : Given) : Prop :=
  ∀ g, f g = if g.Apart u then .ok (u.after g) else .error .argumentConflict

theorem adds_nothing {f : Given → Except Stop Given} (h : ∀ g, f g = .ok g) : Adds f {} := by
  intro g
  rw [h, if_pos apart_empty, empty_after]

/-- A path is never refused. -/
theorem adds_path (word : String) :
    Adds (fun g => .ok { g with paths := g.paths ++ [word] }) { paths := [word] } := by
  intro g
  dsimp only
  rw [if_pos (apart_of_none fun key => by cases key <;> rfl)]
  simp [after, Overrides.merge]

/-- One option only is added, if it is the one that must not be known. -/
theorem adds_single {f : Given → Except Stop Given} (key : Key) (hu : ∀ k, u.gives k = (k == key))
    (hf : ∀ g, f g = if g.gives key = true then .error .argumentConflict else .ok (u.after g)) :
    Adds f u := by
  intro g
  have hapart : u.Apart g ↔ g.gives key = false := by
    constructor
    · intro h
      exact h key (by rw [hu, beq_self_eq_true])
    · intro h k hgives
      rw [hu, beq_iff_eq] at hgives
      rw [hgives, h]
  simp only [hf, apart_comm.trans hapart]
  cases g.gives key <;> rfl

theorem adds_value {α : Type} {text : String} {value : Except Stop α} {get : Given → Option α}
    {put : Given → Option α → Given}
    (hrecord : ∀ g, record g key text = once (get g) value >>= fun new => .ok (put g new))
    (h : t.record key text = .ok t') (hget : ∀ g, g.gives key = (get g).isSome)
    (hsingle : ∀ a k, (put {} (some a)).gives k = (k == key))
    (hplain : ∀ a, (put {} (some a)).Plain)
    (hput : ∀ a g, put g (some a) = (put {} (some a)).after g) :
    ∃ u, u.Plain ∧ Adds (·.record key text) u := by
  cases value with
  | error e =>
    rw [hrecord, once] at h
    split at h <;> cases h
  | ok a =>
    refine ⟨put {} (some a), hplain a, adds_single key (hsingle a) fun g => ?_⟩
    rw [hrecord, once, hget, ← hput]
    split <;> rfl

/-- Taking the value of an option in adds it, if it is one. -/
theorem adds_record {text : String} (h : t.record key text = .ok t') :
    ∃ u, u.Plain ∧ Adds (·.record key text) u := by
  cases key with
  | verbose | quiet | json | help | version => exact ⟨{}, ⟨rfl, rfl⟩, adds_nothing fun _ => rfl⟩
  | _ =>
    -- the options that take a value differ in their fields only
    exact adds_value (fun _ => rfl) h (fun _ => rfl) (fun _ k => by cases k <;> rfl)
      (fun _ => ⟨rfl, rfl⟩) (by simp [after, Overrides.merge])

/-- Taking an option without a value in adds it; help and version end the reading. -/
theorem adds_raise (h : t.raise key = .ok t') :
    key ≠ .version ∧ ∃ u, (key ≠ .json → u.Plain) ∧ Adds (·.raise key) u := by
  cases key with
  | help | version => cases h
  | verbose =>
    exact ⟨Key.noConfusion, { verbose := true }, fun _ => ⟨rfl, rfl⟩,
      adds_single .verbose (fun k => by cases k <;> rfl)
        fun g => by simp [raise, gives, after, Overrides.merge]⟩
  | quiet =>
    exact ⟨Key.noConfusion, { quiet := true }, fun _ => ⟨rfl, rfl⟩,
      adds_single .quiet (fun k => by cases k <;> rfl)
        fun g => by simp [raise, gives, after, Overrides.merge]⟩
  | json =>
    exact ⟨Key.noConfusion, { json := true }, fun hne => absurd rfl hne,
      adds_single .json (fun k => by cases k <;> rfl)
        fun g => by simp [raise, gives, after, Overrides.merge]⟩
  | _ => exact ⟨Key.noConfusion, {}, fun _ => ⟨rfl, rfl⟩, adds_nothing fun _ => rfl⟩

end Given

end CommandLine

end AssetEmbed
