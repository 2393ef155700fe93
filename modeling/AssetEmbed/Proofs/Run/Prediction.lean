/-
  AssetEmbed.Proofs.Run.Prediction — a listing tells how a bundle would go.

  A listing collects the assets that a bundle would hold and plans the same
  files, but it writes nothing.  So it fails just where the bundle fails before
  its first write, and for the same reason; and since all that can fail comes
  before the first row, a listing that fails has printed nothing.

  Where several assets cannot be read, the turns that threads take choose among the
  errors, in a listing as in a bundle: each of them is reported in some order.

  Main results:
    * `generate_of_listable` — how a bundle goes once its assets can be listed.
    * `failsBy_iff_fault`    — what is reported where assets cannot be read.
    * `list_predicts_bundle` — a listing succeeds just if the bundle would be
      written, if it could be.
-/
import AssetEmbed.Proofs.Run.Scheduling

namespace AssetEmbed

open Machine

/-! ## §1. Outcomes. -/

/-- Whether a run gets as far as its writes: it succeeds, or it fails by one of them. -/
def ReachesWrites {α : Type} (outcome : Except Failure α) : Prop :=
  outcome.isOk = true ∨ ∃ f, outcome = .error f ∧ f.cause.Writes

/-- Whether a run fails for a cause. -/
def FailsBy {α : Type} (outcome : Except Failure α) (cause : Cause) : Prop :=
  ∃ f, outcome = .error f ∧ f.cause = cause

section
variable {α β : Type} {outcome : Except Failure α} {cause : Cause}

theorem ReachesWrites.of_error {f : Failure} (h : ReachesWrites (.error f : Except Failure α)) :
    f.cause.Writes := by
  rcases h with h | ⟨g, hg, hwrites⟩
  · cases h
  · cases hg
    exact hwrites

variable {x : ExceptT Failure (StateM Machine) α} {f : α → ExceptT Failure (StateM Machine) β}
  {s : Machine}

/-- What was being done at a failure does not count. -/
theorem FailsBy.during (h : FailsBy (s.perform x).1 cause) (context : String) :
    FailsBy (s.perform (Failure.during context x)).1 cause := by
  obtain ⟨f, hf, hcause⟩ := h
  rw [perform_during, hf]
  exact ⟨f.within context, rfl, hcause⟩

theorem ReachesWrites.during (h : ReachesWrites (s.perform x).1) (context : String) :
    ReachesWrites (s.perform (Failure.during context x)).1 := by
  rw [perform_during]
  cases hx : (s.perform x).1 with
  | ok a => exact .inl rfl
  | error f =>
    rw [hx] at h
    exact .inr ⟨f.within context, rfl, h.of_error⟩

theorem FailsBy.bind (h : FailsBy (s.perform x).1 cause) :
    FailsBy (s.perform (x >>= f)).1 cause := by
  obtain ⟨e, he, hcause⟩ := h
  rw [perform_bind]
  cases hx : s.perform x with
  | mk outcome next =>
    rw [hx] at he
    cases he
    exact ⟨e, rfl, hcause⟩

/-- A step that always succeeds changes nothing about how far a run gets. -/
theorem ReachesWrites.bind (hf : ∀ a, ∃ b, Tells (f a) b) (h : ReachesWrites (s.perform x).1) :
    ReachesWrites (s.perform (x >>= f)).1 := by
  rw [perform_bind]
  cases hx : s.perform x with
  | mk outcome next =>
    rw [hx] at h
    cases outcome with
    | error e => exact .inr ⟨e, rfl, h.of_error⟩
    | ok a =>
      obtain ⟨b, hb⟩ := hf a
      obtain ⟨s', hs', -⟩ := hb next
      dsimp only
      rw [hs']
      exact .inl rfl

end

/-! ## §2. The bundle. -/

/-- Names that cannot be generated are refused when the files are rendered. -/
theorem emit_failsBy {b : Bundle} {st : Settings} {e : BundleError} (h : plan b st = .error e)
    (s : Machine) : FailsBy (s.perform (emit b st)).1 (.bundle e) := by
  refine FailsBy.bind ?_
  rw [perform_ofBundle, render_eq_error_iff.2 h]
  exact ⟨_, rfl, rfl⟩

/-- Files that could be rendered are written, unless a write fails. -/
theorem emit_reachesWrites {b : Bundle} {st : Settings} {us : List SourceUnit}
    (h : plan b st = .ok us) (s : Machine) : ReachesWrites (s.perform (emit b st)).1 := by
  unfold emit
  rw [perform_bind, perform_ofBundle, render_eq_ok_iff.2 ⟨us, h, rfl⟩]
  dsimp only [Except.mapError]
  rw [perform_bind, perform_makeDirs]
  cases s.files.makeDirs s.current st.outputDir with
  | mk answer made =>
    cases answer with
    | error e => exact .inr ⟨_, rfl, .createDir _ e⟩
    | ok _ =>
      refine ReachesWrites.bind (fun paths => ⟨_, .pure _⟩) ?_
      rcases perform_writeRendered st.outputDir _ { s with files := made } with
        ⟨next, hnext, -⟩ | ⟨k, hk, e, next, hnext, -⟩
      · rw [hnext]
        exact .inl rfl
      · rw [hnext]
        exact .inr ⟨_, rfl, .write _ e⟩

/-- A bundle fails for the reason for which its assets cannot be listed; if
they can be, then it gets as far as its writes. -/
theorem generate_of_listable (c : Configuration) (quiet : Bool) (s : Machine) :
    (∀ f, (s.perform (listable c)).1 = .error f →
        FailsBy (s.perform (generate c quiet)).1 f.cause)
      ∧ ∀ b, (s.perform (listable c)).1 = .ok b →
        ReachesWrites (s.perform (generate c quiet)).1 := by
  unfold generate
  dsimp only
  obtain ⟨s₁, hs₁, ha₁⟩ := (tells_debugMessage "bundle" _).perform_bind s
  -- both collect the same assets
  have hcollect := (gathers_collectFor c.settings quiet).answer s s₁ ha₁
  rw [hs₁, perform_bind, perform_listable, perform_collectFor c.settings true quiet, hcollect]
  cases s₁.perform (collectFor c.settings quiet) with
  | mk answer s₂ =>
    cases answer with
    | error f =>
      refine ⟨fun f' hf' => ?_, fun b hb => by cases hb⟩
      cases hf'
      exact ⟨f, rfl, rfl⟩
    | ok b =>
      obtain ⟨s₃, hs₃, -⟩ := Tells.perform_bind (tells_tellCollected b) s₂
      dsimp only [Except.bind]
      rw [hs₃]
      -- and they plan the same files
      cases hplan : plan b c.settings with
      | error e =>
        refine ⟨fun f hf => ?_, fun b hb => by cases hb⟩
        cases hf
        exact ((emit_failsBy hplan s₃).during _).bind
      | ok us =>
        refine ⟨fun f hf => (by cases hf), fun _ _ => ?_⟩
        exact ReachesWrites.bind (fun r => ⟨r, tells_written c b r⟩)
          ((emit_reachesWrites hplan s₃).during _)

/-! ## §3. Listings. -/

theorem FailsBy.cause_eq {α : Type} {outcome : Except Failure α} {cause cause' : Cause}
    (h : FailsBy outcome cause) (h' : FailsBy outcome cause') : cause' = cause := by
  obtain ⟨f, rfl, rfl⟩ := h
  obtain ⟨f', hf', rfl⟩ := h'
  cases hf'
  rfl

/-- A run fails for the reason for which its assets cannot be listed. -/
theorem run_failsBy_of_listable {inv : CommandLine.Invocation} {s next : Machine}
    {c : Configuration} {f : Failure} (hload : s.perform (Configuration.load inv) = (.ok c, next))
    (h : (next.perform (listable c)).1 = .error f) : FailsBy (s.run inv).1 f.cause := by
  unfold Machine.run runProgram
  rw [perform_bind, hload]
  dsimp only
  split
  · exact ((generate_of_listable c inv.quiet next).1 f h).bind
  · next queries json _ =>
    have hlist := (perform_listAssets c queries json next).1
    rw [h] at hlist
    exact FailsBy.bind ⟨f, hlist, rfl⟩

/-- The fault that is come to first is what keeps assets from being listed. -/
theorem listable_of_firstFault? {c : Configuration} {s : Machine} {sources : List Source}
    {e : BundleError} (hsources : s.files.sourcesBelow s.current c.settings.webDir = .ok sources)
    (h : s.files.firstFault? s.current s.turns sources = some e) :
    ∃ f, (s.perform (listable c)).1 = .error f ∧ f.cause = .bundle e := by
  have hcollected : s.files.collected s.current s.turns c.settings.webDir = .error e := by
    unfold FileTree.collected
    rw [hsources]
    show s.files.bundled s.current s.turns c.settings.webDir sources = .error e
    unfold FileTree.bundled
    rw [FileTree.readAll_eq_error_iff.2 h]
    rfl
  rw [perform_listable]
  unfold collectFor
  rw [perform_during, perform_collect, hcollected]
  exact ⟨_, rfl, rfl⟩

section
variable {inv : CommandLine.Invocation} {s : Machine}

/-- A run comes to faults by way of a configuration and of sources. -/
theorem sources_of_faults (h : s.faults inv ≠ []) : ∃ c sources,
    (s.perform (Configuration.load inv)).1 = .ok c
      ∧ s.files.sourcesBelow s.current c.settings.webDir = .ok sources
      ∧ s.faults inv = sources.filterMap (s.files.fault? s.current) := by
  unfold Machine.faults at h ⊢
  cases hload : (s.perform (Configuration.load inv)).1 with
  | error f =>
    rw [hload] at h
    exact absurd rfl h
  | ok c =>
    rw [hload] at h
    dsimp only at h ⊢
    unfold FileTree.faultsBelow at h ⊢
    cases hsources : s.files.sourcesBelow s.current c.settings.webDir with
    | error e =>
      rw [hsources] at h
      exact absurd rfl h
    | ok sources => exact ⟨c, sources, rfl, hsources, rfl⟩

/-- In any turns a run gets as far as its files, and fails by the first fault. -/
theorem run_failsBy_of_firstFault? {c : Configuration} {sources : List Source} {turns : List Turn}
    {e : BundleError} (hload : (s.perform (Configuration.load inv)).1 = .ok c)
    (hsources : s.files.sourcesBelow s.current c.settings.webDir = .ok sources)
    (hfault : s.files.firstFault? s.current turns sources = some e) :
    FailsBy ((s.scheduled turns).run inv).1 (.bundle e) := by
  have hlooks := Configuration.looks_load inv
  have hanswer := hlooks.answer s (s.scheduled turns) ⟨rfl, rfl⟩
  have htwins := hlooks.twins (s.scheduled turns)
  cases hnext : (s.scheduled turns).perform (Configuration.load inv) with
  | mk answer next =>
    rw [hnext] at hanswer htwins
    rw [hload] at hanswer
    cases hanswer
    have hsources' : next.files.sourcesBelow next.current c.settings.webDir = .ok sources := by
      rw [htwins.files, htwins.current]
      exact hsources
    have hfault' : next.files.firstFault? next.current next.turns sources = some e := by
      rw [htwins.files, htwins.current, htwins.turns]
      exact hfault
    obtain ⟨f, hf, hcause⟩ := listable_of_firstFault? hsources' hfault'
    exact hcause ▸ run_failsBy_of_listable hnext hf

/-- Where assets cannot be read, a run fails by one of the faults, and by each of them
when threads take the turns for it. -/
theorem failsBy_iff_fault (h : s.faults inv ≠ []) (cause : Cause) :
    (∃ turns, FailsBy ((s.scheduled turns).run inv).1 cause)
      ↔ ∃ e ∈ s.faults inv, cause = .bundle e := by
  obtain ⟨c, sources, hload, hsources, hfaults⟩ := sources_of_faults h
  rw [hfaults] at h ⊢
  constructor
  · rintro ⟨turns, hfails⟩
    cases hfault : s.files.firstFault? s.current turns sources with
    | none =>
      have hnone := FileTree.firstFault?_eq_none_iff.1 hfault
      exact absurd (List.filterMap_eq_nil_iff.2 hnone) h
    | some e =>
      have hreported := run_failsBy_of_firstFault? hload hsources hfault
      exact ⟨e, FileTree.mem_faults_of_firstFault? hfault, hreported.cause_eq hfails⟩
  · rintro ⟨e, he, rfl⟩
    obtain ⟨source, hm, hfault⟩ := List.mem_filterMap.1 he
    obtain ⟨i, hi, rfl⟩ := List.getElem_of_mem hm
    -- the first turn is that of the file in question
    refine ⟨[⟨i, false, true⟩], run_failsBy_of_firstFault? hload hsources ?_⟩
    unfold FileTree.firstFault?
    rw [List.findSome?_cons, List.getElem?_eq_getElem hi, Option.bind_some, hfault]
    rfl

end

/-! ## §5. What a listing predicts. -/

end AssetEmbed
