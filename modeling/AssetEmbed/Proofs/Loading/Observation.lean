/-
  AssetEmbed.Proofs.Loading.Observation — runs that only look at the files.

  Until the first directory is made a run asks about the files and tells what
  it does, but it changes no file and no directory, and what it finds depends
  on the files alone.  What holds of every outcome of a step is carried along.

  Only reading files depends on something else, on the turns that threads take.

  Main results:
    * `Looks.bind`      — one step after another.
    * `Gathers.bind`    — the same where files are read.
    * `Tells.bind`      — one message after another.
    * `observes_gather` — collecting the settings changes nothing, and the root
      it finds is absolute.
    * `looks_load`      — loading changes nothing, and what it gives is checked.
-/
import AssetEmbed.Proofs.Files.Spelling
import AssetEmbed.Run.Machine

namespace AssetEmbed

/-! ## §1. Steps that only look. -/

namespace Machine

variable {α β : Type}

/-- The answer of a step that is run on a machine after another one. -/
theorem perform_bind (x : ExceptT Failure (StateM Machine) α)
    (f : α → ExceptT Failure (StateM Machine) β) (s : Machine) :
    s.perform (x >>= f)
      = match s.perform x with
        | (.ok a, next) => next.perform (f a)
        | (.error e, next) => (.error e, next) := by
  show (match s.perform x with
    | (outcome, next) => (ExceptT.bindCont f outcome : StateM Machine (Except Failure β)) next) = _
  cases s.perform x with
  | mk outcome next => cases outcome <;> rfl

/-- A step after another one succeeds only if both do. -/
theorem perform_bind_eq_ok {x : ExceptT Failure (StateM Machine) α}
    {f : α → ExceptT Failure (StateM Machine) β} {s s' : Machine} {b : β}
    (h : s.perform (x >>= f) = (.ok b, s')) :
    ∃ a next, s.perform x = (.ok a, next) ∧ next.perform (f a) = (.ok b, s') := by
  rw [perform_bind] at h
  cases hx : s.perform x with
  | mk answer next =>
    rw [hx] at h
    cases answer with
    | error e => cases h
    | ok a => exact ⟨a, next, rfl, h⟩

/-- Whether two machines hold the same files and stand at the same place. -/
structure Alike (s s' : Machine) : Prop where
  files : s'.files = s.files
  current : s'.current = s.current

theorem Alike.symm {s s' : Machine} (h : Alike s s') : Alike s' s := ⟨h.1.symm, h.2.symm⟩

theorem Alike.trans {s s' s'' : Machine} (h : Alike s s') (h' : Alike s' s'') : Alike s s'' :=
  ⟨h'.1.trans h.1, h'.2.trans h.2⟩

/-- Whether threads take the same turns on two machines that are alike. -/
structure Twins (s s' : Machine) : Prop extends Alike s s' where
  turns : s'.turns = s.turns

theorem Twins.refl (s : Machine) : Twins s s := ⟨⟨rfl, rfl⟩, rfl⟩

theorem Twins.symm {s s' : Machine} (h : Twins s s') : Twins s' s := ⟨h.1.symm, h.2.symm⟩

theorem Twins.trans {s s' s'' : Machine} (h : Twins s s') (h' : Twins s' s'') : Twins s s'' :=
  ⟨h.1.trans h'.1, h'.2.trans h.2⟩

end Machine

/-- Whether a run fails while it makes directories or writes files. -/
inductive Cause.Writes : Cause → Prop
  | createDir (path : Path) (cause : FileError) : Writes (.bundle (.createDir path cause))
  | write (path : Path) (cause : FileError) : Writes (.bundle (.write path cause))

namespace Machine

variable {α β : Type}

/-- Whether a step leaves the files of a machine as they are and prints nothing,
every outcome of it satisfies `P`, and it fails by no write. -/
structure Observes (x : ExceptT Failure (StateM Machine) α) (P : α → Prop) : Prop where
  twins : ∀ s : Machine, Twins s (s.perform x).2
  output : ∀ s : Machine, (s.perform x).2.output = s.output
  outcome : ∀ (s : Machine) a, (s.perform x).1 = .ok a → P a
  failure : ∀ (s : Machine) f, (s.perform x).1 = .error f → ¬ f.cause.Writes

theorem Observes.alike {P : α → Prop} {x : ExceptT Failure (StateM Machine) α}
    (h : Observes x P) (s : Machine) : Alike s (s.perform x).2 := (h.twins s).toAlike

theorem Observes.bind {P : α → Prop} {Q : β → Prop} {x : ExceptT Failure (StateM Machine) α}
    {f : α → ExceptT Failure (StateM Machine) β} (hx : Observes x P)
    (hf : ∀ a, P a → Observes (f a) Q) : Observes (x >>= f) Q := by
  -- what there is to say about one machine, since all of it needs the first outcome
  have hstep : ∀ s : Machine, Twins s (s.perform (x >>= f)).2
      ∧ (s.perform (x >>= f)).2.output = s.output
      ∧ (∀ b, (s.perform (x >>= f)).1 = .ok b → Q b)
      ∧ ∀ e, (s.perform (x >>= f)).1 = .error e → ¬ e.cause.Writes := by
    intro s
    have htwins := hx.twins s
    have houtput := hx.output s
    have hP := hx.outcome s
    have hfailure := hx.failure s
    rw [perform_bind]
    cases hs : s.perform x with
    | mk outcome next =>
      rw [hs] at htwins houtput hP hfailure
      cases outcome with
      | error e =>
        refine ⟨htwins, houtput, fun b hb => ?_, fun f hf => hfailure f ?_⟩
        · cases hb
        · cases hf
          rfl
      | ok a =>
        have hfa := hf a (hP a rfl)
        exact ⟨htwins.trans (hfa.twins next), (hfa.output next).trans houtput, hfa.outcome next,
          hfa.failure next⟩
  exact ⟨fun s => (hstep s).1, fun s => (hstep s).2.1, fun s => (hstep s).2.2.1,
    fun s => (hstep s).2.2.2⟩

/-- Whether a step does nothing but look at the files: its outcome and what it tells
depend on them alone. -/
structure Looks (x : ExceptT Failure (StateM Machine) α) (P : α → Prop) : Prop
    extends Observes x P where
  answer : ∀ s s' : Machine, Alike s s' → (s.perform x).1 = (s'.perform x).1
  told : ∀ s s' : Machine, Alike s s' → ∃ es, (s.perform x).2.events = s.events ++ es
    ∧ (s'.perform x).2.events = s'.events ++ es

/-- A step that answers a question about the files and does nothing else. -/
theorem Looks.of_question {P : α → Prop} {x : ExceptT Failure (StateM Machine) α}
    (question : FileTree → Location → α)
    (h : ∀ s : Machine, s.perform x = (.ok (question s.files s.current), s))
    (hP : ∀ files current, P (question files current)) : Looks x P where
  twins s := by
    rw [h]
    exact .refl s
  output s := by rw [h]
  outcome s a ha := by
    rw [h] at ha
    cases ha
    exact hP s.files s.current
  failure s f hf := by
    rw [h] at hf
    cases hf
  answer s s' hs := by rw [h, h, hs.files, hs.current]
  told s s' _ := ⟨[], by rw [h, List.append_nil], by rw [h, List.append_nil]⟩

theorem Looks.pure {P : α → Prop} {a : α} (h : P a) : Looks (Pure.pure a) P :=
  .of_question (fun _ _ => a) (fun _ => rfl) fun _ _ => h

theorem Looks.throw {P : α → Prop} {e : Failure} (h : ¬ e.cause.Writes) :
    Looks (throw e : ExceptT Failure (StateM Machine) α) P where
  twins s := .refl s
  output _ := rfl
  outcome _ _ ha := by cases ha
  failure _ _ hf := by
    cases hf
    exact h
  answer _ _ _ := rfl
  told s s' _ := ⟨[], (List.append_nil s.events).symm, (List.append_nil s'.events).symm⟩

theorem Looks.bind {P : α → Prop} {Q : β → Prop} {x : ExceptT Failure (StateM Machine) α}
    {f : α → ExceptT Failure (StateM Machine) β} (hx : Looks x P)
    (hf : ∀ a, P a → Looks (f a) Q) : Looks (x >>= f) Q := by
  have hobserves := hx.toObserves.bind fun a ha => (hf a ha).toObserves
  -- the second step begins on machines with the same files again
  have hstep : ∀ s s' : Machine, Alike s s' →
      (s.perform (x >>= f)).1 = (s'.perform (x >>= f)).1
        ∧ ∃ es, (s.perform (x >>= f)).2.events = s.events ++ es
          ∧ (s'.perform (x >>= f)).2.events = s'.events ++ es := by
    intro s s' hsame
    have hanswer := hx.answer s s' hsame
    have htold := hx.told s s' hsame
    have hnext := (hx.alike s).symm.trans (hsame.trans (hx.alike s'))
    have hP := hx.outcome s
    rw [perform_bind, perform_bind]
    cases hs : s.perform x with
    | mk outcome next =>
      cases hs' : s'.perform x with
      | mk outcome' next' =>
        rw [hs, hs'] at hanswer htold hnext
        rw [hs] at hP
        cases hanswer
        cases outcome with
        | error e => exact ⟨rfl, htold⟩
        | ok a =>
          obtain ⟨es, hes, hes'⟩ := htold
          obtain ⟨later, hlater, hlater'⟩ := (hf a (hP a rfl)).told next next' hnext
          refine ⟨(hf a (hP a rfl)).answer next next' hnext, es ++ later, ?_, ?_⟩
          · rw [← List.append_assoc, ← hes]
            exact hlater
          · rw [← List.append_assoc, ← hes']
            exact hlater'
  exact ⟨hobserves, fun s s' h => (hstep s s' h).1, fun s s' h => (hstep s s' h).2⟩

/-- Whether a step does nothing but look at the files: its outcome depends on them and
on the turns that threads take. -/
structure Gathers (x : ExceptT Failure (StateM Machine) α) (P : α → Prop) : Prop
    extends Observes x P where
  answer : ∀ s s' : Machine, Twins s s' → (s.perform x).1 = (s'.perform x).1

theorem Looks.gathers {P : α → Prop} {x : ExceptT Failure (StateM Machine) α} (h : Looks x P) :
    Gathers x P := ⟨h.toObserves, fun s s' hsame => h.answer s s' hsame.toAlike⟩

/-- A step can be asked on the machine on which the one before it was. -/
theorem Gathers.answer_bind {P : α → Prop} {Q : β → Prop} {x : ExceptT Failure (StateM Machine) α}
    {f : α → ExceptT Failure (StateM Machine) β} (hx : Gathers x P)
    (hf : ∀ a, P a → Gathers (f a) Q) (s : Machine) :
    (s.perform (x >>= f)).1 = (s.perform x).1.bind fun a => (s.perform (f a)).1 := by
  have htwins := hx.twins s
  have hP := hx.outcome s
  rw [perform_bind]
  cases hs : s.perform x with
  | mk outcome next =>
    rw [hs] at htwins hP
    cases outcome with
    | error e => rfl
    | ok a => exact (hf a (hP a rfl)).answer next s htwins.symm

theorem Gathers.bind {P : α → Prop} {Q : β → Prop} {x : ExceptT Failure (StateM Machine) α}
    {f : α → ExceptT Failure (StateM Machine) β} (hx : Gathers x P)
    (hf : ∀ a, P a → Gathers (f a) Q) : Gathers (x >>= f) Q := by
  refine ⟨hx.toObserves.bind fun a ha => (hf a ha).toObserves, fun s s' hsame => ?_⟩
  rw [hx.answer_bind hf, hx.answer_bind hf, ← hx.answer s s' hsame]
  cases ha : (s.perform x).1 with
  | error e => rfl
  | ok a => exact (hf a (hx.outcome s a ha)).answer s s' hsame

/-- Questions change nothing. -/
theorem looks_ask (question : FileTree → Location → α) :
    Looks (ExceptT.lift (ask question)) fun _ => True :=
  .of_question question (fun _ => rfl) fun _ _ => trivial

/-- What a run tells changes nothing. -/
theorem looks_tell (e : Event) : Looks (Host.tell e) fun _ => True where
  twins _ := ⟨⟨rfl, rfl⟩, rfl⟩
  output _ := rfl
  outcome _ _ _ := trivial
  failure _ _ hf := by cases hf
  answer _ _ _ := rfl
  told _ _ _ := ⟨[e], rfl, rfl⟩

/-- A step before which something may be told. -/
theorem Gathers.after_tell {P : α → Prop} {x : ExceptT Failure (StateM Machine) α}
    (hx : Gathers x P) (told : Bool) (e : Event) :
    Gathers (if told then Host.tell e >>= fun _ => x else x) P := by
  split
  · exact (looks_tell e).gathers.bind fun _ _ => hx
  · exact hx

/-- What a run tells makes no difference to what it finds. -/
theorem Gathers.answer_after_tell {P : α → Prop} {x : ExceptT Failure (StateM Machine) α}
    (hx : Gathers x P) (told : Bool) (e : Event) (s : Machine) :
    (s.perform (if told then Host.tell e >>= fun _ => x else x)).1 = (s.perform x).1 := by
  split
  · exact (looks_tell e).gathers.answer_bind (fun _ _ => hx) s
  · rfl

theorem looks_ofExcept {P : α → Prop} {x : Except Cause α} (hP : ∀ a, x = .ok a → P a)
    (hE : ∀ cause, x = .error cause → ¬ cause.Writes) : Looks (Failure.ofExcept x) P := by
  cases x with
  | ok a => exact .pure (hP a rfl)
  | error cause => exact .throw (hE cause rfl)

theorem perform_during (context : String) (x : ExceptT Failure (StateM Machine) α) (s : Machine) :
    s.perform (Failure.during context x)
      = ((s.perform x).1.mapError (·.within context), (s.perform x).2) := rfl

/-- A failure keeps its cause when it is said what was being done. -/
theorem Gathers.during {P : α → Prop} {x : ExceptT Failure (StateM Machine) α} (h : Gathers x P)
    (context : String) : Gathers (Failure.during context x) P := by
  refine ⟨⟨fun s => h.twins s, fun s => h.output s, fun s a ha => ?_, fun s f hf => ?_⟩,
    fun s s' hsame => ?_⟩
  · rw [perform_during] at ha
    refine h.outcome s a ?_
    cases hx : (s.perform x).1 <;> rw [hx] at ha <;> cases ha
    rfl
  · rw [perform_during] at hf
    cases hx : (s.perform x).1 with
    | error e =>
      rw [hx] at hf
      cases hf
      exact h.failure s e hx
    | ok a =>
      rw [hx] at hf
      cases hf
  · rw [perform_during, perform_during, h.answer s s' hsame]

theorem looks_forM {f : β → ExceptT Failure (StateM Machine) PUnit}
    (hf : ∀ b, Looks (f b) fun _ => True) (xs : List β) : Looks (xs.forM f) fun _ => True := by
  induction xs with
  | nil => exact .pure trivial
  | cons b rest ih => exact (hf b).bind fun _ _ => ih

theorem looks_findM? {f : β → ExceptT Failure (StateM Machine) Bool}
    (hf : ∀ b, Looks (f b) fun _ => True) (xs : List β) :
    Looks (xs.findM? f) fun _ => True := by
  induction xs with
  | nil => exact .pure trivial
  | cons b rest ih =>
    refine (hf b).bind fun found _ => ?_
    cases found with
    | true => exact .pure trivial
    | false => exact ih

/-! ## §2. Steps that say something. -/

/-- Whether a step succeeds with `a` and leaves all but what is told and printed alone. -/
def Tells (x : ExceptT Failure (StateM Machine) α) (a : α) : Prop :=
  ∀ s : Machine, ∃ s', s.perform x = (.ok a, s') ∧ Twins s s'

theorem Tells.pure (a : α) : Tells (Pure.pure a) a := fun s => ⟨s, rfl, .refl s⟩

theorem Tells.bind {x : ExceptT Failure (StateM Machine) α} {a : α}
    {f : α → ExceptT Failure (StateM Machine) β} {b : β} (hx : Tells x a) (hf : Tells (f a) b) :
    Tells (x >>= f) b := by
  intro s
  obtain ⟨between, hbetween, htwins⟩ := hx s
  obtain ⟨s', hs', htwins'⟩ := hf between
  refine ⟨s', ?_, htwins.trans htwins'⟩
  rw [perform_bind, hbetween]
  exact hs'

/-- A step that comes after messages begins on a machine with the same files. -/
theorem Tells.perform_bind {x : ExceptT Failure (StateM Machine) α} {a : α}
    {f : α → ExceptT Failure (StateM Machine) β} (hx : Tells x a) (s : Machine) :
    ∃ s', s.perform (x >>= f) = s'.perform (f a) ∧ Twins s s' := by
  obtain ⟨s', hs', htwins⟩ := hx s
  refine ⟨s', ?_, htwins⟩
  rw [Machine.perform_bind, hs']

theorem tells_tell (e : Event) : Tells (Host.tell e) () :=
  fun _ => ⟨_, rfl, ⟨rfl, rfl⟩, rfl⟩

theorem tells_debugMessage (module message : String) :
    Tells (debugMessage module message : ExceptT Failure (StateM Machine) Unit) () :=
  tells_tell _

theorem tells_forM {f : β → ExceptT Failure (StateM Machine) PUnit} (hf : ∀ b, Tells (f b) ())
    (xs : List β) : Tells (xs.forM f) () := by
  induction xs with
  | nil => exact .pure ()
  | cons b rest ih => exact (hf b).bind ih

theorem tells_print (text : String) : Tells (Host.print text) () :=
  fun _ => ⟨_, rfl, ⟨rfl, rfl⟩, rfl⟩

end Machine

/-! ## §3. Collecting the settings. -/

namespace Configuration

open Machine

theorem looks_locate (current name : Path) :
    Looks (locate current name : ExceptT Failure (StateM Machine) _) fun _ => True := by
  unfold locate
  split
  · exact Looks.bind (looks_ask _) fun _ _ => .pure trivial
  · exact looks_findM? (fun _ => looks_ask _) _

theorem looks_warnUnknown (path : Path) (unknown : List String) :
    Looks (warnUnknown path unknown : ExceptT Failure (StateM Machine) _) fun _ => True := by
  unfold warnUnknown
  split
  · exact (looks_tell _).bind fun _ _ => looks_forM (fun _ => looks_tell _) unknown
  · exact .pure trivial

theorem not_writes_of_decode {path : Path} {bytes : List UInt8} {cause : Cause}
    (h : decode path bytes = .error cause) : ¬ cause.Writes := by
  unfold decode at h
  split at h
  · cases h
    rintro ⟨⟩
  · split at h <;> cases h
    rintro ⟨⟩

theorem looks_readDocument (path : Path) :
    Looks (readDocument path : ExceptT Failure (StateM Machine) _) fun _ => True := by
  refine Looks.bind (looks_ask _) fun answer _ => ?_
  cases answer with
  | error e => exact .throw (by rintro ⟨⟩)
  | ok bytes =>
    refine Looks.bind (looks_ofExcept (fun _ _ => trivial) fun _ => not_writes_of_decode) ?_
    exact fun _ _ => (looks_warnUnknown _ _).bind fun _ _ => .pure trivial

/-- A path after normalization, as the files are. -/
def normalized (s : Machine) (p : Path) : Path :=
  match s.files.canonical? s.current p with
  | some q => q
  | none => if p.isAbsolute then p else (Location.path s.current).join p

theorem perform_normalize (s : Machine) (p : Path) :
    s.perform (normalize p) = (.ok (normalized s p), s) := by
  have hask : s.perform (Host.canonical? p) = (.ok (s.files.canonical? s.current p), s) := rfl
  unfold normalize normalized
  rw [perform_bind, hask]
  cases s.files.canonical? s.current p with
  | some q => rfl
  | none =>
    dsimp only
    split <;> rfl

theorem isAbsolute_canonical {t : FileTree} {current : Location} {p q : Path}
    (h : t.canonical? current p = some q) : q.isAbsolute = true := by
  unfold FileTree.canonical? at h
  split at h
  · cases h
  · split at h <;> cases h <;> rfl

theorem isAbsolute_normalized (s : Machine) (p : Path) : (normalized s p).isAbsolute = true := by
  unfold normalized
  split
  · next q hq => exact isAbsolute_canonical hq
  · split
    · assumption
    · exact isAbsolute_join rfl

theorem looks_normalize (p : Path) :
    Looks (normalize p : ExceptT Failure (StateM Machine) Path) (·.isAbsolute = true) :=
  .of_question (fun files current => normalized (.start files current) p)
    (fun s => perform_normalize s p) fun _ _ => isAbsolute_normalized _ p

theorem looks_gather (inv : CommandLine.Invocation) :
    Looks (gather inv : ExceptT Failure (StateM Machine) _) (·.root.isAbsolute = true) := by
  refine Looks.bind (looks_ask _) fun current _ => ?_
  refine (looks_locate current _).bind fun found _ => ?_
  have hread : Looks (found.elim (pure {}) readDocument) fun _ => True := by
    cases found with
    | none => exact .pure trivial
    | some path => exact looks_readDocument path
  have hfile : Looks (found.mapM normalize) fun _ => True := by
    cases found with
    | none => exact .pure trivial
    | some path => exact (looks_normalize path).bind fun _ _ => .pure trivial
  dsimp only
  -- a file that was asked for and is not there ends the run
  split
  case' isTrue =>
    refine Looks.bind (P := fun _ => True) (.throw (by rintro ⟨⟩)) fun _ _ => ?_
  all_goals
    refine hread.bind fun document _ => hfile.bind fun file _ => (looks_tell _).bind fun _ _ => ?_
    exact (looks_normalize _).bind fun root hroot => .pure hroot

/-- Collecting the settings changes nothing, and the root it finds is absolute. -/
theorem observes_gather (inv : CommandLine.Invocation) :
    Observes (gather inv : ExceptT Failure (StateM Machine) _) (·.root.isAbsolute = true) :=
  (looks_gather inv).toObserves

/-- Loading changes nothing.  The settings that it gives are in order, and the
output directory has an absolute path. -/
theorem looks_load (inv : CommandLine.Invocation) :
    Looks (load inv : ExceptT Failure (StateM Machine) _) fun c =>
      c.settings.diagnostics = [] ∧ c.settings.outputDir.isAbsolute = true := by
  refine (looks_gather inv).bind fun c _ => ?_
  have hpaths : Looks (normalizePaths c.root c.settings : ExceptT Failure (StateM Machine) _)
      (·.outputDir.isAbsolute = true) :=
    (looks_normalize _).bind fun _ _ => (looks_normalize _).bind fun _ h => .pure h
  refine hpaths.bind fun settings habsolute =>
    looks_ofExcept (fun checked h => ?_) fun cause h => ?_
  · unfold check at h
    split at h
    · next hnone =>
      cases h
      exact ⟨hnone, habsolute⟩
    · cases h
  · unfold check at h
    split at h <;> cases h
    rintro ⟨⟩

end Configuration

end AssetEmbed
