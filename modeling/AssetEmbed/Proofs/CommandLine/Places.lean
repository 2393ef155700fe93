/-
  AssetEmbed.Proofs.CommandLine.Places — options before and after a subcommand.

  An argument adds to what is given, at whatever place it is read and whatever is
  given there already, but options that are given there already are refused.  So
  does a row of arguments.  The value of an option may be looked at early, and with
  this the options in front of a subcommand can be moved behind it.

  Main results:
    * `Scan.adds_argument`              — what one argument adds.
    * `Scan.adds_read`                  — what a row of arguments adds.
    * `Scan.read_append`                — two rows of arguments at one place.
    * `scan_behind`                     — options in front of the arguments of a subcommand.
    * `Invocation.options_at_any_place` — options in front of a subcommand and behind it.
-/
import AssetEmbed.Proofs.CommandLine.Options

namespace AssetEmbed.CommandLine

/-! ## §1. One argument. -/

namespace Scan

variable {level : Level} {f k : Scan → Except Stop Scan} {s s' s'' : Scan} {u v : Given}
  {key : Key} {dash dash' : Bool} {word : String} {cs : List Char}

/-- What a step of the reading does, as well at another place and with other options
known: it adds some options, and `--` may come. -/
structure Adds (level : Level) (f : Scan → Except Stop Scan) (s s' : Scan) (u : Given)
    (dash : Bool) : Prop where
  apart : s.given.Apart u
  given_eq : s'.given = u.after s.given
  /-- The same step at the other place, with other options known. -/
  step : ∀ g, f { s with level, given := g }
    = if g.Apart u then .ok { s' with level, given := u.after g } else .error .argumentConflict
  /-- In front of a subcommand nothing is given that only the subcommand takes. -/
  plain : s.level = .top → u.Plain
  level_eq : s'.level = s.level
  trailing_eq : s'.trailing = (s.trailing || dash)

theorem Adds.congr (h : Adds level f s s' u dash)
    (hk : ∀ g, k { s with level, given := g } = f { s with level, given := g }) :
    Adds level k s s' u dash :=
  { h with step := fun g => (hk g).trans (h.step g) }

/-- One step after another adds what both add. -/
theorem Adds.comp (hf : Adds level f s s' u dash) (hk : Adds level k s' s'' v dash') :
    Adds level (fun s => f s >>= k) s s'' (v.after u) (dash || dash') := by
  have happart := hk.apart
  rw [hf.given_eq, Given.after_apart_iff] at happart
  refine ⟨Given.apart_after_iff.2 ⟨happart.2, hf.apart⟩, ?_, fun g => ?_, fun htop => ?_,
    hk.level_eq.trans hf.level_eq, ?_⟩
  · rw [hk.given_eq, hf.given_eq, Given.after_assoc]
  · -- what the first step adds is apart from what the second one adds, since both were taken
    have hiff : g.Apart (v.after u) ↔ g.Apart u ∧ (u.after g).Apart v := by
      rw [Given.apart_after_iff, Given.after_apart_iff]
      exact ⟨fun h => ⟨h.2, happart.1, h.1⟩, fun h => ⟨h.2.2, h.1⟩⟩
    rw [hf.step]
    by_cases hu : g.Apart u
    · rw [if_pos hu]
      refine (hk.step (u.after g)).trans ?_
      simp only [hiff, hu, true_and, Given.after_assoc]
    · rw [if_neg hu, if_neg (mt (fun h => (hiff.1 h).1) hu)]
      rfl
  · obtain ⟨hjson, hpaths⟩ := hf.plain htop
    obtain ⟨hjson', hpaths'⟩ := hk.plain (hf.level_eq.trans htop)
    exact ⟨by rw [Given.after, hjson, hjson']; rfl, by rw [Given.after, hpaths, hpaths']; rfl⟩
  · rw [hk.trailing_eq, hf.trailing_eq, Bool.or_assoc]

/-- Two steps add what both add, if each of them adds something. -/
theorem exists_adds_bind (h : (f s >>= k) = .ok s'')
    (hf : ∀ s', f s = .ok s' → ∃ u, Adds level f s s' u dash)
    (hk : ∀ s', s'.level = s.level → k s' = .ok s'' → ∃ v, Adds level k s' s'' v dash') :
    ∃ w, Adds level (fun s => f s >>= k) s s'' w (dash || dash') := by
  obtain ⟨s', hs, h⟩ := bind_eq_ok h
  obtain ⟨u, hu⟩ := hf s' hs
  obtain ⟨v, hv⟩ := hk s' hu.level_eq h
  exact ⟨_, hu.comp hv⟩

/-- A step that only adds to what is given. -/
theorem adds_of_given {f : Given → Except Stop Given} (pending : Option (Key × Option String))
    (hf : ∀ g, f s.given = .ok g → ∃ u, (s.level = .top → u.Plain) ∧ Given.Adds f u)
    (hk : ∀ l, l = s.level ∨ l = level → ∀ g, k { s with level := l, given := g }
      = f g >>= fun g => .ok { s with level := l, given := g, pending })
    (h : k s = .ok s') : ∃ u, Adds level k s s' u false := by
  obtain ⟨g', hgiven, hself⟩ := bind_eq_ok ((hk s.level (.inl rfl) s.given).symm.trans h)
  obtain ⟨u, hplain, hu⟩ := hf g' hgiven
  cases hself
  rw [hu] at hgiven
  split at hgiven
  · next happart =>
    cases hgiven
    refine ⟨u, happart, rfl, fun g => ?_, hplain, rfl, (Bool.or_false _).symm⟩
    rw [hk level (.inr rfl), hu]
    split <;> rfl
  · cases hgiven

/-- A step that gives nothing. -/
theorem adds_of_kept (pending : Option (Key × Option String))
    (hk : ∀ l, l = s.level ∨ l = level → ∀ g, k { s with level := l, given := g }
      = .ok { s with level := l, given := g, pending })
    (h : k s = .ok s') : ∃ u, Adds level k s s' u false := by
  refine adds_of_given (f := .ok) pending (fun _ _ => ?_) hk h
  exact ⟨{}, fun _ => ⟨rfl, rfl⟩, Given.adds_nothing fun _ => rfl⟩

theorem adds_settle (level : Level) (h : s.settle = .ok s') :
    ∃ u, Adds level settle s s' u false := by
  cases hpending : s.pending with
  | none =>
    refine adds_of_kept none (fun l _ g => ?_) h
    simp only [settle, hpending]
  | some entry =>
    obtain ⟨key, _ | text⟩ := entry
    · rw [settle, hpending] at h
      cases h
    · refine adds_of_given (f := (·.record key text)) none (fun _ hg => ?_)
        (fun l _ g => ?_) h
      · obtain ⟨u, hplain, hu⟩ := Given.adds_record hg
        exact ⟨u, fun _ => hplain, hu⟩
      · simp only [settle, hpending]

/-- What is added after the pending option has been looked at. -/
theorem adds_settled (hk : ∀ t, t.level = s.level → k t = .ok s' → ∃ u, Adds level k t s' u false)
    (h : (s.settle >>= k) = .ok s') : ∃ u, Adds level (fun s => s.settle >>= k) s s' u false :=
  exists_adds_bind h (fun _ => adds_settle level) hk

theorem adds_attach {text : String} (h : s.attach key text = .ok s') :
    ∃ u, Adds level (·.attach key text) s s' u false := by
  refine adds_settled (fun t _ ht => ?_) h
  refine adds_of_given (f := (·.record key text)) t.pending (fun _ hg => ?_)
    (fun l _ g => rfl) ht
  obtain ⟨u, hplain, hu⟩ := Given.adds_record hg
  exact ⟨u, fun _ => hplain, hu⟩

theorem adds_await (h : s.await key = .ok s') : ∃ u, Adds level (·.await key) s s' u false := by
  refine adds_settled (fun t _ ht => ?_) h
  exact adds_of_kept (some (key, none)) (fun l _ g => rfl) ht

theorem adds_flag (hat : key.isAt s.level = true) (h : s.flag key = .ok s') :
    ∃ u, Adds level (·.flag key) s s' u false := by
  refine adds_settled (fun t hlevel ht => ?_) h
  refine adds_of_given (f := (·.raise key)) t.pending (fun _ hg => ?_)
    (fun l _ g => rfl) ht
  obtain ⟨-, u, hplain, hu⟩ := Given.adds_raise hg
  refine ⟨u, fun htop => hplain (Key.ne_json_of_top ?_), hu⟩
  rw [← htop, hlevel]
  exact hat

/-- Asking for the version ends the reading. -/
theorem ne_version_of_flag (h : s.flag key = .ok s') : key ≠ .version := by
  rintro rfl
  obtain ⟨t, -, h⟩ := bind_eq_ok h
  cases h

/-- What an option does, with the value that is attached to it. -/
def take (s : Scan) (key : Key) (attached : Option String) : Except Stop Scan :=
  match key.takesValue, attached with
  | true, some text => s.attach key text
  | true, none => s.await key
  | false, some _ => .error .tooManyValues
  | false, none => s.flag key

theorem adds_take {attached : Option String} (level : Level) (hat : key.isAt s.level = true)
    (h : s.take key attached = .ok s') :
    key ≠ .version ∧ ∃ u, Adds level (·.take key attached) s s' u false := by
  unfold take at h ⊢
  cases hvalue : key.takesValue with
  | true =>
    rw [hvalue] at h
    refine ⟨?_, ?_⟩
    · rintro rfl
      cases hvalue
    · cases attached with
      | some text => exact adds_attach h
      | none => exact adds_await h
  | false =>
    rw [hvalue] at h
    cases attached with
    | some text => cases h
    | none => exact ⟨ne_version_of_flag h, adds_flag hat h⟩

/-- An option that can be given at the top can be given at any place. -/
theorem isAt_of_level (hlevel : s.level = .top ∨ s.level = level) (hat : key.isAt s.level = true)
    (hversion : key ≠ .version) : key.isAt level = true := by
  rcases hlevel with htop | hsame
  · exact Key.isAt_of_top (htop ▸ hat) hversion
  · exact hsame ▸ hat

theorem long_eq (s : Scan) (cs : List Char) :
    s.long cs = match Key.ofLong? s.level (String.ofList (cs.takeWhile (· != '='))) with
      | none => .error .unknownArgument
      | some key => s.take key ((cs.dropWhile (· != '=')).tail?.map String.ofList) :=
  rfl

theorem adds_long (hlevel : s.level = .top ∨ s.level = level) (h : s.long cs = .ok s') :
    ∃ u, Adds level (·.long cs) s s' u false := by
  rw [long_eq] at h
  split at h
  · cases h
  · next key hkey =>
    obtain ⟨hat, hname⟩ := Key.ofLong?_eq_some_iff.1 hkey
    obtain ⟨hversion, u, hu⟩ := adds_take level hat h
    refine ⟨u, hu.congr fun g => ?_⟩
    have hthere := isAt_of_level hlevel hat hversion
    rw [long_eq, Key.ofLong?_eq_some_iff.2 ⟨hthere, hname⟩]

/-- The value that the letters behind an option are. -/
def letterValue : List Char → Option String
  | [] => none
  | '=' :: text => some (String.ofList text)
  | text => some (String.ofList text)

theorem short_cons (s : Scan) (c : Char) (rest : List Char) :
    s.short (c :: rest) = match Key.ofShort? s.level c with
      | none => .error .unknownArgument
      | some key =>
        if key.takesValue = true then s.take key (letterValue rest)
        else s.flag key >>= fun s => s.short rest := by
  rw [short]
  cases Key.ofShort? s.level c with
  | none => rfl
  | some key =>
    dsimp only
    split
    · next hvalue =>
      unfold take
      rw [hvalue]
      split
      · rfl
      · rfl
      · next hnil heq => simp only [letterValue]
    · rfl

theorem adds_short (hlevel : s.level = .top ∨ s.level = level) (h : s.short cs = .ok s') :
    ∃ u, Adds level (·.short cs) s s' u false := by
  induction cs generalizing s with
  | nil =>
    exact adds_of_kept s.pending (fun l _ g => rfl) h
  | cons c rest ih =>
    rw [short_cons] at h
    split at h
    · cases h
    · next key hkey =>
      obtain ⟨hat, hletter⟩ := Key.ofShort?_eq_some_iff.1 hkey
      have hthere : key ≠ .version → Key.ofShort? level c = some key := fun hversion =>
        Key.ofShort?_eq_some_iff.2 ⟨isAt_of_level hlevel hat hversion, hletter⟩
      split at h
      · next hvalue =>
        obtain ⟨hversion, u, hu⟩ := adds_take level hat h
        refine ⟨u, hu.congr fun g => ?_⟩
        rw [short_cons, hthere hversion]
        exact if_pos hvalue
      · next hflag =>
        have hversion : key ≠ .version := by
          obtain ⟨t, hs, -⟩ := bind_eq_ok h
          exact ne_version_of_flag hs
        have hboth : ∃ u, Adds level (fun s => s.flag key >>= fun s => s.short rest) s s' u
            (false || false) :=
          exists_adds_bind h (fun _ => adds_flag hat) fun t hsame ht => ih (by rwa [hsame]) ht
        refine hboth.imp fun u hu => hu.congr fun g => ?_
        rw [short_cons, hthere hversion]
        exact if_neg hflag

theorem adds_positional (hlevel : s.level = .top ∨ s.level = level)
    (h : s.positional word = .ok s') : ∃ u, Adds level (·.positional word) s s' u false := by
  cases hplace : s.level with
  | top =>
    rw [positional, hplace] at h
    dsimp only at h
    split at h <;> cases h
  | bundle =>
    rw [positional, hplace] at h
    cases h
  | list =>
    obtain rfl : .list = level := by
      rcases hlevel with htop | hsame
      · cases hplace.symm.trans htop
      · exact hplace.symm.trans hsame
    rw [positional, hplace] at h
    have hsettled : ∃ u, Adds .list (fun s => s.settle >>= fun s =>
        .ok { s with given.paths := s.given.paths ++ [word] }) s s' u false := by
      refine adds_settled (fun t hsame ht => ?_) h
      refine adds_of_given (f := fun g => .ok { g with paths := g.paths ++ [word] })
        t.pending (fun _ _ => ?_) (fun l _ g => rfl) ht
      refine ⟨{ paths := [word] }, fun htop => ?_, Given.adds_path word⟩
      cases hplace.symm.trans (hsame.symm.trans htop)
    exact hsettled.imp fun u hu => hu.congr fun g => rfl

/-- What a word does that does not look like an option. -/
def receive (s : Scan) (word : String) : Except Stop Scan :=
  match s.pending with
  | some (key, none) => .ok { s with pending := some (key, some word) }
  | _ => s.positional word

theorem adds_receive (hlevel : s.level = .top ∨ s.level = level)
    (h : s.receive word = .ok s') : ∃ u, Adds level (·.receive word) s s' u false := by
  unfold receive at h
  split at h
  · next key hpending =>
    refine adds_of_kept (k := (·.receive word)) (some (key, some word))
      (fun l _ g => ?_) (by rw [receive, hpending, ← h])
    simp only [receive, hpending]
  · next hother =>
    obtain ⟨u, hu⟩ := adds_positional hlevel h
    refine ⟨u, hu.congr fun g => ?_⟩
    unfold receive
    split
    · next key hpending => exact absurd hpending (hother key)
    · rfl

/-- An argument in front of `--` is one or more options or a word. -/
inductive Form (word : String) : (Scan → Except Stop Scan) → Prop where
  | long (cs : List Char) : Form word (·.long cs)
  | short (c : Char) (cs : List Char) : Form word (·.short (c :: cs))
  | receive : Form word (·.receive word)

theorem exists_form (hword : word ≠ "--") :
    ∃ f, Form word f ∧ ∀ t : Scan, t.trailing = false → t.argument word = f t := by
  by_cases hlong : ∃ cs, word.toList = '-' :: '-' :: cs
  · obtain ⟨cs, hchars⟩ := hlong
    refine ⟨_, .long cs, fun t htrailing => ?_⟩
    rw [argument, htrailing, hchars]
    cases cs with
    | nil => exact absurd (String.toList_inj.1 hchars) hword
    | cons c rest => rfl
  · by_cases hshort : ∃ c cs, word.toList = '-' :: c :: cs
    · obtain ⟨c, cs, hchars⟩ := hshort
      refine ⟨_, .short c cs, fun t htrailing => ?_⟩
      have hc : c ≠ '-' := fun heq => hlong ⟨cs, heq ▸ hchars⟩
      rw [argument, htrailing, hchars]
      simp [hc]
    · refine ⟨_, .receive, fun t htrailing => ?_⟩
      rw [argument, if_neg (htrailing ▸ Bool.false_ne_true)]
      split
      · next h => exact absurd ⟨_, h⟩ hlong
      · next h => exact absurd ⟨_, h⟩ hlong
      · next h => exact absurd ⟨_, _, h⟩ hshort
      · rfl

theorem adds_form (hform : Form word f) (hlevel : s.level = .top ∨ s.level = level)
    (h : f s = .ok s') : ∃ u, Adds level f s s' u false := by
  cases hform with
  | long cs => exact adds_long hlevel h
  | short c cs => exact adds_short hlevel h
  | receive => exact adds_receive hlevel h

theorem argument_trailing (h : s.trailing = true) : s.argument word = s.positional word := if_pos h

theorem argument_dashes (h : s.trailing = false) :
    s.argument "--" = .ok { s with trailing := true } := by
  rw [argument, h]
  rfl

/-- What one argument adds. -/
theorem adds_argument (level : Level) (hlevel : s.level = .top ∨ s.level = level)
    (h : s.argument word = .ok s') :
    ∃ u, Adds level (·.argument word) s s' u (word == "--") := by
  cases htrailing : s.trailing with
  | true =>
    rw [argument_trailing htrailing] at h
    obtain ⟨u, hu⟩ := adds_positional hlevel h
    -- after `--` another one is a path
    have hstays : s'.trailing = (s.trailing || word == "--") := by
      rw [hu.trailing_eq, htrailing]
      rfl
    have hstep := hu.congr (k := (·.argument word)) fun g => argument_trailing htrailing
    exact ⟨u, { hstep with trailing_eq := hstays }⟩
  | false =>
    by_cases hword : word = "--"
    · subst hword
      rw [argument_dashes htrailing] at h
      cases h
      refine ⟨{}, Given.apart_empty, Given.empty_after.symm, fun g => ?_, fun _ => ⟨rfl, rfl⟩, rfl,
        (Bool.or_true _).symm⟩
      rw [if_pos Given.apart_empty, Given.empty_after]
      exact argument_dashes htrailing
    · obtain ⟨f, hform, hf⟩ := exists_form hword
      rw [hf s htrailing] at h
      obtain ⟨u, hu⟩ := adds_form hform hlevel h
      rw [beq_eq_false_iff_ne.2 hword]
      exact ⟨u, hu.congr fun g => hf _ htrailing⟩

/-! ## §2. Rows of arguments. -/

/-- A row of arguments at one place, without a subcommand. -/
def read (args : List String) (s : Scan) : Except Stop Scan := args.foldlM argument s >>= settle

theorem read_cons (word : String) (rest : List String) (s : Scan) :
    read (word :: rest) s = s.argument word >>= read rest := by
  unfold read
  rw [List.foldlM_cons, bind_assoc]

/-- What a row of arguments adds. -/
theorem adds_read {args : List String} (level : Level) (hlevel : s.level = .top ∨ s.level = level)
    (h : read args s = .ok s') : ∃ u, Adds level (read args) s s' u (args.contains "--") := by
  induction args generalizing s with
  | nil => exact adds_settle level h
  | cons word rest ih =>
    rw [read_cons] at h
    have hadds := exists_adds_bind (f := (·.argument word)) h (fun _ => adds_argument level hlevel)
      fun t hsame ht => ih (by rwa [hsame]) ht
    rw [List.contains_cons, Bool.beq_comm]
    exact hadds.imp fun u hu => hu.congr fun g => read_cons _ _ _

theorem pending_of_settle (h : s.settle = .ok s') : s'.pending = none := by
  unfold settle at h
  split at h
  · next hnone =>
    cases h
    exact hnone
  · cases h
  · next key text _ =>
    obtain ⟨g, -, h⟩ := bind_eq_ok h
    cases h
    rfl

theorem pending_of_read {args : List String} (h : read args s = .ok s') : s'.pending = none := by
  obtain ⟨t, -, h⟩ := bind_eq_ok h
  exact pending_of_settle h

theorem settle_of_pending (h : s.pending = none) : s.settle = .ok s := by
  rw [settle, h]

section
variable (h : s.settle = .ok s')
include h

theorem level_of_settle : s'.level = s.level := by
  obtain ⟨u, hu⟩ := adds_settle s.level h
  exact hu.level_eq

theorem trailing_of_settle : s'.trailing = s.trailing := by
  obtain ⟨u, hu⟩ := adds_settle s.level h
  exact hu.trailing_eq.trans (Bool.or_false _)

theorem settle_again : s'.settle = .ok s' := settle_of_pending (pending_of_settle h)

/-- It does not matter if a value is looked at before an option comes. -/
theorem take_settled {attached : Option String} : s.take key attached = s'.take key attached := by
  unfold take attach await flag
  rw [h, settle_again h]

theorem positional_settled : s.positional word = s'.positional word := by
  unfold positional
  rw [level_of_settle h, trailing_of_settle h, h, settle_again h]

theorem form_settled (hform : Form word f) : f s = f s' := by
  cases hform with
  | long cs =>
    dsimp only
    rw [long_eq, long_eq, level_of_settle h]
    split
    · rfl
    · exact take_settled h
  | short c cs =>
    dsimp only
    rw [short_cons, short_cons, level_of_settle h]
    split
    · rfl
    · rw [take_settled h, flag, flag, h, settle_again h]
  | receive =>
    show s.receive word = s'.receive word
    rw [receive, receive, pending_of_settle h, ← positional_settled h]
    split
    · next key hpending =>
      rw [settle, hpending] at h
      cases h
    · rfl

end

theorem settle_dashes (h : s.settle = .ok s') :
    settle { s with trailing := true } = .ok { s' with trailing := true } := by
  have hmap : settle { s with trailing := true }
      = s.settle.map fun t => { t with trailing := true } := by
    obtain ⟨level, given, _ | ⟨key, _ | text⟩, trailing⟩ := s
    · rfl
    · rfl
    · unfold settle
      dsimp only
      cases given.record key text <;> rfl
  rw [hmap, h]
  rfl

/-- It does not matter if a value is looked at before a row of arguments comes. -/
theorem read_settled {args : List String} (h : s.settle = .ok s') :
    read args s = read args s' := by
  induction args generalizing s s' with
  | nil => exact h.trans (settle_again h).symm
  | cons word rest ih =>
    rw [read_cons, read_cons]
    cases htrailing : s.trailing with
    | true =>
      rw [argument_trailing htrailing, argument_trailing ((trailing_of_settle h).trans htrailing),
        positional_settled h]
    | false =>
      have htrailing' := (trailing_of_settle h).trans htrailing
      by_cases hword : word = "--"
      · -- `--` alone does not look at the value, which then stays for the next argument
        subst hword
        rw [argument_dashes htrailing, argument_dashes htrailing']
        exact ih (settle_dashes h)
      · obtain ⟨f, hform, hf⟩ := exists_form hword
        rw [hf s htrailing, hf s' htrailing', form_settled h hform]

/-- Two rows of arguments are read one after the other. -/
theorem read_append {args : List String} (rest : List String) (h : read args s = .ok s') :
    read (args ++ rest) s = read rest s' := by
  induction args generalizing s with
  | nil => exact read_settled h
  | cons word others ih =>
    rw [List.cons_append, read_cons]
    rw [read_cons] at h
    obtain ⟨t, hword, h⟩ := bind_eq_ok h
    rw [hword]
    exact ih h

end Scan

/-! ## §3. Both places. -/

section
variable {level : Level} {s outer : Scan} {opts : List String} {word : String}

theorem subcommand?_of_ne_top (h : level ≠ .top) (word : String) :
    subcommand? level word = none := if_pos h

theorem ne_top_of_enter (h : subcommand? .top word = some (.enter level)) : level ≠ .top := by
  rintro rfl
  unfold subcommand? at h
  repeat' split at h
  all_goals cases h

/-- The subcommand that an argument is, if it may be one. -/
def met (s : Scan) (word : String) : Option Subcommand :=
  if s.trailing || s.awaitsValue then none else subcommand? s.level word

theorem scan_of_met (h : met s word = none) (rest : List String) :
    scan (word :: rest) s = s.argument word >>= scan rest := by
  unfold met at h
  rw [scan, h]

/-- If no second place is reached, then an argument is no subcommand. -/
theorem met_of_scan {rest : List String} (h : scan (word :: rest) s = .ok (outer, none)) :
    met s word = none ∧ ∃ t, s.argument word = .ok t ∧ scan rest t = .ok (outer, none) := by
  rw [scan] at h
  split at h
  · cases h
  · obtain ⟨r, -, h⟩ := bind_eq_ok h
    obtain ⟨t, -, h⟩ := bind_eq_ok h
    cases h
  · next hmet => exact ⟨hmet, bind_eq_ok h⟩

/-- Arguments that reach no second place are all read at the first one. -/
theorem read_of_scan (h : scan opts s = .ok (outer, none)) : Scan.read opts s = .ok outer := by
  induction opts generalizing s with
  | nil =>
    obtain ⟨t, hs, h⟩ := bind_eq_ok h
    cases h
    exact hs
  | cons word others ih =>
    obtain ⟨-, t, hword, h⟩ := met_of_scan h
    rw [Scan.read_cons, hword]
    exact ih h

/-- Behind a subcommand there is no other. -/
theorem scan_of_ne_top (args : List String) (h : s.level ≠ .top) :
    scan args s = Scan.read args s >>= fun t => .ok (t, none) := by
  induction args generalizing s with
  | nil => rfl
  | cons word rest ih =>
    have hmet : met s word = none := by
      rw [met, subcommand?_of_ne_top h, ite_self]
    rw [scan_of_met hmet, Scan.read_cons, bind_assoc]
    cases hword : s.argument word with
    | error e => rfl
    | ok t =>
      obtain ⟨u, hu⟩ := Scan.adds_argument s.level (.inr rfl) hword
      exact ih (by rwa [hu.level_eq])

/-- A subcommand comes after arguments that reach no second place. -/
theorem scan_enter (hword : subcommand? .top word = some (.enter level)) (rest : List String)
    (htop : s.level = .top) (htrailing : s.trailing = false) (hdash : "--" ∉ opts)
    (h : scan opts s = .ok (outer, none)) :
    scan (opts ++ word :: rest) s
      = scan rest { level } >>= fun r => .ok (outer, some r.1) := by
  induction opts generalizing s with
  | nil =>
    have hsettle : s.settle = .ok outer := read_of_scan h
    have hawaits : s.awaitsValue = false := by
      unfold Scan.awaitsValue
      split
      · next hpending =>
        rw [Scan.settle, hpending] at hsettle
        cases hsettle
      · rfl
    rw [List.nil_append, scan, htrailing, hawaits, htop, Bool.or_self, if_neg Bool.false_ne_true,
      hword]
    dsimp only
    rw [hsettle]
    rfl
  | cons first others ih =>
    obtain ⟨hmet, t, hstep, h⟩ := met_of_scan h
    obtain ⟨u, hu⟩ := Scan.adds_argument s.level (.inr rfl) hstep
    have hfirst : first ≠ "--" := fun heq => hdash (heq ▸ List.mem_cons_self)
    have hkept : t.trailing = false := by
      rw [hu.trailing_eq, htrailing, beq_eq_false_iff_ne.2 hfirst]
      rfl
    rw [List.cons_append, scan_of_met hmet, hstep]
    exact ih (hu.level_eq.trans htop) hkept (fun hmem => hdash (.tail _ hmem)) h

/-- What has been read when no value is left to look at. -/
theorem eq_of_read {args : List String} (hdash : "--" ∉ args)
    (h : Scan.read args { level } = .ok outer) : outer = { level, given := outer.given } := by
  obtain ⟨u, hu⟩ := Scan.adds_read level (.inr rfl) h
  have hpending : outer.pending = none := Scan.pending_of_read h
  have htrailing : outer.trailing = false := by
    rw [hu.trailing_eq]
    simpa using hdash
  obtain ⟨place, given, pending, trailing⟩ := outer
  cases hu.level_eq
  cases hpending
  cases htrailing
  rfl

theorem plain_of_scan (h : scan opts { level := .top } = .ok (outer, none)) :
    outer.given.Plain := by
  obtain ⟨u, hu⟩ := Scan.adds_read .top (.inl rfl) (read_of_scan h)
  rw [hu.given_eq, Given.after_empty]
  exact hu.plain rfl

/-- Arguments in front of the others behind a subcommand add the same as in front of
the subcommand, unless an option comes twice. -/
theorem scan_behind {rest : List String} {inner : Scan}
    (hopts : scan opts { level := .top } = .ok (outer, none)) (hdash : "--" ∉ opts)
    (hlevel : level ≠ .top) (hrest : scan rest { level } = .ok (inner, none)) :
    scan (opts ++ rest) { level } = if outer.given.Apart inner.given
      then .ok ({ inner with given := inner.given.after outer.given }, none)
      else .error .argumentConflict := by
  -- behind the subcommand the options are read first, and there they add to nothing
  have hread := read_of_scan hopts
  obtain ⟨u, hu⟩ := Scan.adds_read level (.inl rfl) hread
  have hbehind : Scan.read opts { level } = .ok { level, given := outer.given } := by
    refine (hu.step {}).trans ((if_pos hu.apart).trans ?_)
    rw [hu.given_eq, eq_of_read hdash hread]
  -- the other arguments add to them what they give alone
  obtain ⟨v, hv⟩ := Scan.adds_read level (.inr rfl) (read_of_scan hrest)
  have hinner : v = inner.given := by rw [hv.given_eq, Given.after_empty]
  have hplace : level = inner.level := hv.level_eq.symm
  rw [scan_of_ne_top _ hlevel, Scan.read_append rest hbehind]
  have hstep := hv.step outer.given
  rw [hinner, hplace] at hstep
  rw [hplace, hstep]
  split <;> rfl

end

/-! ## §4. Command lines. -/

/-- What a subcommand does, with what it has for itself. -/
def Scan.command (s : Scan) : Command :=
  if s.level = .list then .list s.given.paths s.given.json else .bundle

namespace Invocation

variable {level : Level} {opts rest : List String} {outer inner : Scan} {word : String}
  {alone : Invocation}

theorem ofGiven_after (g h : Given) (command : Command) :
    ofGiven {} (h.after g) command = ofGiven g h command := by
  simp [ofGiven, Given.after, Overrides.merge]

/-- Options and a subcommand with its own arguments. -/
theorem parse_enter (hopts : scan opts { level := .top } = .ok (outer, none))
    (hdash : "--" ∉ opts) (hword : subcommand? .top word = some (.enter level))
    (rest : List String) : parse (opts ++ word :: rest)
      = scan rest { level } >>= fun r => .ok (ofGiven outer.given r.1.given r.1.command) := by
  unfold parse
  rw [scan_enter hword rest rfl rfl hdash hopts, bind_assoc]
  rfl

theorem parse_enter_alone (hword : subcommand? .top word = some (.enter level))
    (rest : List String) : parse (word :: rest)
      = scan rest { level } >>= fun r => .ok (ofGiven {} r.1.given r.1.command) :=
  have hnone : scan [] { level := .top } = .ok ({ level := .top }, none) := rfl
  parse_enter hnone (by simp) hword rest

/-- What a subcommand has for itself is never among the options in front of it. -/
theorem apart_of_own (hopts : scan opts { level := .top } = .ok (outer, none))
    (hown : inner.given.Own) : outer.given.Apart inner.given := by
  intro key hgives
  cases hother : inner.given.gives key with
  | false => rfl
  | true =>
    obtain rfl := hown key hother
    cases hgives.symm.trans (plain_of_scan hopts).1

theorem command_after (hopts : scan opts { level := .top } = .ok (outer, none)) :
    Scan.command { inner with given := inner.given.after outer.given } = inner.command := by
  obtain ⟨hjson, hpaths⟩ := plain_of_scan hopts
  simp [Scan.command, Given.after, hjson, hpaths]

/-- Options behind a subcommand, in front of what it has for itself. -/
theorem parse_behind (hopts : scan opts { level := .top } = .ok (outer, none))
    (hdash : "--" ∉ opts) (hword : subcommand? .top word = some (.enter level))
    (hrest : scan rest { level } = .ok (inner, none)) :
    parse (word :: (opts ++ rest)) = if outer.given.Apart inner.given
      then parse (opts ++ word :: rest) else .error .argumentConflict := by
  rw [parse_enter_alone hword, scan_behind hopts hdash (ne_top_of_enter hword) hrest,
    parse_enter hopts hdash hword, hrest]
  split
  · show Except.ok (ofGiven {} (inner.given.after outer.given) (Scan.command _)) = _
    rw [ofGiven_after, command_after hopts]
    rfl
  · rfl

/-- Options that are understood without a subcommand may as well stand in front of a
subcommand with arguments that it understands, or behind it and in front of these.
If the arguments are its own, then the same is understood, and so it is if they repeat
none of the options; options that are repeated behind the subcommand are refused,
while in front of it they count only if they are not given behind it.  Without a
subcommand, a bundle is generated, as with the subcommand for it. -/
theorem options_at_any_place (hopts : scan opts { level := .top } = .ok (outer, none))
    (hdash : "--" ∉ opts) :
    (∀ word level rest alone, subcommand? .top word = some (.enter level) →
      parse (word :: rest) = .ok alone →
      ∃ inner : Scan, scan rest { level } = .ok (inner, none)
        ∧ alone = ofGiven {} inner.given inner.command
        ∧ parse (opts ++ word :: rest) = .ok (ofGiven outer.given inner.given inner.command)
        ∧ (inner.given.Own → parse (word :: (opts ++ rest)) = parse (opts ++ word :: rest))
        ∧ parse (word :: (opts ++ rest)) = if outer.given.Apart inner.given
            then parse (opts ++ word :: rest) else .error .argumentConflict)
      ∧ parse opts = .ok (ofGiven outer.given {} .bundle)
      ∧ parse ("bundle" :: opts) = parse opts := by
  have hparse : parse opts = .ok (ofGiven outer.given {} .bundle) := by
    unfold parse
    rw [hopts]
    rfl
  refine ⟨fun word level rest alone hword halone => ?_, hparse, ?_⟩
  · rw [parse_enter_alone hword] at halone
    obtain ⟨⟨inner, second⟩, hscan, halone⟩ := bind_eq_ok halone
    have hlevel := ne_top_of_enter hword
    rw [scan_of_ne_top (s := { level }) rest hlevel] at hscan
    obtain ⟨t, hread, hscan⟩ := bind_eq_ok hscan
    cases hscan
    cases halone
    have hrest : scan rest { level } = .ok (inner, none) := by
      rw [scan_of_ne_top (s := { level }) rest hlevel, hread]
      rfl
    have hbehind := parse_behind hopts hdash hword hrest
    refine ⟨inner, hrest, rfl, ?_, fun hown => ?_, hbehind⟩
    · rw [parse_enter hopts hdash hword, hrest]
      rfl
    · rw [hbehind, if_pos (apart_of_own hopts hown)]
  · have hrest : scan [] { level := .bundle } = .ok ({ level := .bundle }, none) := rfl
    have hword : subcommand? .top "bundle" = some (.enter .bundle) := rfl
    have hbehind := parse_behind hopts hdash hword hrest
    rw [List.append_nil, if_pos Given.apart_empty, parse_enter hopts hdash hword, hrest] at hbehind
    exact hbehind.trans hparse.symm

/-- Letters in one argument and a value behind an equals sign, in front of a listing
and behind it. -/
theorem options_at_any_place_listing :
    parse ["l", "-vn", "app", "--mode=split", "css/a.css", "--json"]
        = parse ["-vn", "app", "--mode=split", "l", "css/a.css", "--json"]
      ∧ parse ["-vn", "app", "--mode=split", "l", "css/a.css", "--json"]
        = .ok { color := .auto, config := none, verbose := true, quiet := false,
                overrides := { scope := some "app", mode := some .split },
                command := .list ["css/a.css"] true }
      ∧ parse ["bundle", "-vn", "app", "--mode=split"] = parse ["-vn", "app", "--mode=split"] := by
  have hopts : scan ["-vn", "app", "--mode=split"] { level := .top } = .ok
      ({ level := .top, given := { verbose := true, overrides :=
          { scope := some "app", mode := some .split } } }, none) := rfl
  obtain ⟨hlist, -, hbundle⟩ := options_at_any_place hopts (by decide)
  obtain ⟨inner, hscan, -, hfront, hown, -⟩ := hlist "l" .list ["css/a.css", "--json"] _ rfl rfl
  have hinner : scan ["css/a.css", "--json"] { level := .list } = .ok
      ({ level := .list, given := { paths := ["css/a.css"], json := true } }, none) := rfl
  cases hinner.symm.trans hscan
  exact ⟨hown fun key => by cases key <;> decide, hfront, hbundle⟩

/-- A flag may be repeated behind a subcommand, but not at one place. -/
example : parse ["-v", "list", "-v"] = parse ["list", "-v"]
    ∧ parse ["list", "-v", "-v"] = .error .argumentConflict :=
  ⟨rfl, rfl⟩

end Invocation

end AssetEmbed.CommandLine
