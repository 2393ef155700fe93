/-
  AssetEmbed.Proofs.Run.Threads — what reading in parallel comes to.

  The turns that threads take decide which of several files that cannot be read
  is reported, and when the progress line is drawn.  They decide nothing else: if
  all files can be read, then all of them are, each is counted once, and their
  bytes come in the order of the files.

  What a move can do is said once (`Move`).  The invariant of a run of moves is
  that a file that has been given up has a failure to show for it, and that the
  files that are waiting have not been counted.

  Main results:
    * `perform_move`        — the moves of a thread.
    * `Batch.sound_turn`    — a turn keeps the invariant.
    * `perform_readInTurns` — what is read and told in given turns.
-/
import AssetEmbed.Proofs.Loading.Observation

namespace AssetEmbed

/-! ## §1. Files that cannot be read. -/

namespace FileTree

variable (t : FileTree) (current : Location)

/-- The error of a file that cannot be read. -/
def fault? (source : Source) : Option BundleError :=
  match t.readFile current source.path with
  | .error e => some (.read source.path e)
  | .ok _ => none

/-- The error that is reported when threads take the given turns: that of the first
file with a turn which cannot be read, or else of the first one at all. -/
def firstFault? (turns : List Turn) (sources : List Source) : Option BundleError :=
  (turns.findSome? fun turn => sources[turn.file]?.bind (t.fault? current)).or
    (sources.findSome? (t.fault? current))

/-- The assets that sources hold. -/
def assetsOf : List Source → Except BundleError (List Asset)
  | [] => .ok []
  | source :: rest =>
    match t.readFile current source.path with
    | .error e => .error (.read source.path e)
    | .ok bytes => (assetsOf rest).map (⟨source.stored, bytes⟩ :: ·)

/-- What reading sources in given turns comes to. -/
def readAll (turns : List Turn) (sources : List Source) : Except BundleError (List Asset) :=
  match t.firstFault? current turns sources with
  | some e => .error e
  | none => t.assetsOf current sources

end FileTree

/-! ## §2. What is told on the way. -/

namespace Machine

/-- A machine on which more has been told. -/
def telling (s : Machine) (es : List Event) : Machine := { s with events := s.events ++ es }

@[simp] theorem telling_files (s : Machine) (es : List Event) :
    (s.telling es).files = s.files := rfl

@[simp] theorem telling_current (s : Machine) (es : List Event) :
    (s.telling es).current = s.current := rfl

@[simp] theorem telling_nil (s : Machine) : s.telling [] = s := by
  unfold telling
  rw [List.append_nil]

@[simp] theorem telling_telling (s : Machine) (es es' : List Event) :
    (s.telling es).telling es' = s.telling (es ++ es') := by
  unfold telling
  rw [List.append_assoc]

theorem twins_telling (s : Machine) (es : List Event) : Twins s (s.telling es) :=
  ⟨⟨rfl, rfl⟩, rfl⟩

end Machine

/-- Whether an event counts a file. -/
def Event.isCount : Event → Bool
  | .counted _ => true
  | _ => false

/-- Whether an event belongs to a progress line that goes up to `total`. -/
inductive Event.Shows (total : Nat) : Event → Prop
  | counted : Shows total (.counted readCounter)
  | drawn (current : Nat) : Shows total (.drawn [⟨readCounter, total, current⟩])

/-! ## §3. One move. -/

theorem Tally.isSome_fail (tally : Tally) (e : BundleError) :
    (tally.fail e).failure?.isSome = true := by
  show (tally.failure?.or (some e)).isSome = true
  rw [Option.isSome_or, Option.isSome_some, Bool.or_true]

section
open Machine

variable {t : FileTree} {current : Location} {shown : Bool} {total : Nat} {source : Source}

/-- What a move of the thread at a file can do: from which stage and tally to which,
and what it tells. -/
inductive Move (t : FileTree) (current : Location) (shown : Bool) (total : Nat) (source : Source) :
    Stage → Tally → Stage → Tally → List Event → Prop
  /-- There is a failure already. -/
  | warned {tally : Tally} (failed : tally.failure?.isSome = true) :
      Move t current shown total source .waiting tally .abandoned tally []
  | failed {tally : Tally} {e : FileError} (read : t.readFile current source.path = .error e) :
      Move t current shown total source .waiting tally .abandoned
        (tally.fail (.read source.path e)) []
  | counted {tally : Tally} {bytes : List UInt8} (shows : shown = true)
      (read : t.readFile current source.path = .ok bytes) :
      Move t current shown total source .waiting tally (.counted bytes) tally.count
        [.counted readCounter]
  | unshown {tally : Tally} {bytes : List UInt8} (hidden : shown = false)
      (read : t.readFile current source.path = .ok bytes) :
      Move t current shown total source .waiting tally (.finished bytes) tally []
  | looked (bytes : List UInt8) (tally : Tally) :
      Move t current shown total source (.counted bytes) tally (.drawing bytes tally.counted)
        tally []
  /-- Another thread has the display. -/
  | hindered (bytes : List UInt8) (tally : Tally) :
      Move t current shown total source (.counted bytes) tally (.finished bytes) tally []
  | drawn (bytes : List UInt8) (seen : Nat) (tally : Tally) :
      Move t current shown total source (.drawing bytes seen) tally (.finished bytes) tally
        [.drawn [⟨readCounter, total, seen⟩]]
  /-- There is nothing left to do. -/
  | rested {stage : Stage} (tally : Tally)
      (ended : stage = .abandoned ∨ ∃ bytes, stage = .finished bytes) :
      Move t current shown total source stage tally stage tally []

/-- The moves of a thread. -/
theorem perform_move (s : Machine) (shown : Bool) (total : Nat) (warned free : Bool)
    (source : Source) (tally : Tally) (stage : Stage) : ∃ next tally' es,
    s.perform (stage.move shown total warned free source tally) = (.ok (next, tally'), s.telling es)
      ∧ Move s.files s.current shown total source stage tally next tally' es := by
  cases stage with
  | waiting =>
    unfold Stage.move
    dsimp only
    split
    · next h =>
      rw [Bool.and_eq_true] at h
      exact ⟨_, _, [], by rw [telling_nil]; rfl, .warned h.2⟩
    · have hread : s.perform (Host.readFile source.path)
          = (.ok (s.files.readFile s.current source.path), s) := rfl
      rw [perform_bind, hread]
      dsimp only
      cases hfile : s.files.readFile s.current source.path with
      | error e => exact ⟨_, _, [], by rw [telling_nil]; rfl, .failed hfile⟩
      | ok bytes =>
        cases shown with
        | true => exact ⟨_, _, _, rfl, .counted rfl hfile⟩
        | false => exact ⟨_, _, [], by rw [telling_nil]; rfl, .unshown rfl hfile⟩
  | counted bytes =>
    cases free with
    | true => exact ⟨_, _, [], by rw [telling_nil]; rfl, .looked bytes tally⟩
    | false => exact ⟨_, _, [], by rw [telling_nil]; rfl, .hindered bytes tally⟩
  | drawing bytes seen => exact ⟨_, _, _, rfl, .drawn bytes seen tally⟩
  | finished bytes => exact ⟨_, _, [], by rw [telling_nil]; rfl, .rested tally (.inr ⟨bytes, rfl⟩)⟩
  | abandoned => exact ⟨_, _, [], by rw [telling_nil]; rfl, .rested tally (.inl rfl)⟩

/-- What is known about a file by how far it has come. -/
def Stage.Sound (t : FileTree) (current : Location) (shown : Bool) (source : Source)
    (failure? : Option BundleError) : Stage → Prop
  | .waiting => True
  | .counted bytes => shown = true ∧ t.readFile current source.path = .ok bytes
  | .drawing bytes _ => shown = true ∧ t.readFile current source.path = .ok bytes
  | .finished bytes => t.readFile current source.path = .ok bytes
  | .abandoned => failure?.isSome = true

/-- Whether a file is waiting. -/
def Stage.isWaiting : Stage → Bool
  | .waiting => true
  | _ => false

/-- How many moves are left at most. -/
def Stage.left : Stage → Nat
  | .waiting => 3
  | .counted _ => 2
  | .drawing _ _ => 1
  | .finished _ => 0
  | .abandoned => 0

/-- How a tally has changed while events were told and a fault may have been met. -/
structure Advances (shown : Bool) (total : Nat) (fault : Option BundleError) (tally tally' : Tally)
    (es : List Event) : Prop where
  failure : tally'.failure? = tally.failure?.or fault
  counted : tally'.counted = tally.counted + es.countP Event.isCount
  shows : ∀ e ∈ es, shown = true ∧ e.Shows total

namespace Advances

variable {fault fault' : Option BundleError} {tally tally' tally'' : Tally} {es es' : List Event}

theorem refl (tally : Tally) : Advances shown total none tally tally [] :=
  ⟨by simp, rfl, by simp⟩

theorem trans (h : Advances shown total fault tally tally' es)
    (h' : Advances shown total fault' tally' tally'' es') :
    Advances shown total (fault.or fault') tally tally'' (es ++ es') := by
  refine ⟨?_, ?_, fun e he => ?_⟩
  · rw [h'.failure, h.failure, Option.or_assoc]
  · rw [h'.counted, h.counted, List.countP_append, Nat.add_assoc]
  · exact (List.mem_append.1 he).elim (h.shows e) (h'.shows e)

/-- The same file is met again. -/
theorem again (h : Advances shown total fault tally tally' es)
    (h' : Advances shown total fault tally' tally'' es') :
    Advances shown total fault tally tally'' (es ++ es') := by
  have htrans := h.trans h'
  rwa [Option.or_self] at htrans

/-- A failure stays. -/
theorem isSome (h : Advances shown total fault tally tally' es)
    (hf : tally.failure?.isSome = true) : tally'.failure?.isSome = true := by
  rw [h.failure, Option.isSome_or, hf, Bool.true_or]

theorem eq_none (h : Advances shown total fault tally tally' es) (hf : tally'.failure? = none) :
    tally.failure? = none := by
  rw [h.failure, Option.or_eq_none_iff] at hf
  exact hf.1

end Advances

theorem Stage.Sound.mono {failure? failure?' : Option BundleError} {stage : Stage}
    (h : stage.Sound t current shown source failure?)
    (hf : failure?.isSome = true → failure?'.isSome = true) :
    stage.Sound t current shown source failure?' := by
  cases stage with
  | abandoned => exact hf h
  | _ => exact h

namespace Move

variable {stage next : Stage} {tally tally' : Tally} {es : List Event}

theorem fault?_of_read {bytes : List UInt8} (h : t.readFile current source.path = .ok bytes) :
    t.fault? current source = none := by
  unfold FileTree.fault?
  rw [h]

/-- A failure is reported just if the file cannot be read and there is none yet. -/
theorem advances (h : Move t current shown total source stage tally next tally' es)
    (hs : stage.Sound t current shown source tally.failure?) :
    Advances shown total (t.fault? current source) tally tally' es := by
  -- with a failure to report nothing is added to it
  have hkept : ∀ {fault : Option BundleError}, tally.failure?.isSome = true →
      tally.failure? = tally.failure?.or fault := by
    intro fault hf
    obtain ⟨e, he⟩ := Option.isSome_iff_exists.1 hf
    rw [he]
    rfl
  have hfine : ∀ {bytes}, t.readFile current source.path = .ok bytes →
      tally.failure? = tally.failure?.or (t.fault? current source) := by
    intro bytes hread
    rw [fault?_of_read hread, Option.or_none]
  cases h with
  | warned failed => exact ⟨hkept failed, rfl, by simp⟩
  | @failed _ e read =>
    refine ⟨?_, rfl, by simp⟩
    unfold FileTree.fault?
    rw [read]
    rfl
  | counted shows read =>
    exact ⟨hfine read, rfl, fun e he => ⟨shows, List.mem_singleton.1 he ▸ .counted⟩⟩
  | unshown hidden read => exact ⟨hfine read, rfl, by simp⟩
  | looked bytes => exact ⟨hfine hs.2, rfl, by simp⟩
  | hindered bytes => exact ⟨hfine hs.2, rfl, by simp⟩
  | drawn bytes seen =>
    exact ⟨hfine hs.2, rfl, fun e he => ⟨hs.1, List.mem_singleton.1 he ▸ .drawn seen⟩⟩
  | rested _ ended =>
    rcases ended with rfl | ⟨bytes, rfl⟩
    · exact ⟨hkept hs, rfl, by simp⟩
    · exact ⟨hfine hs, rfl, by simp⟩

theorem sound (h : Move t current shown total source stage tally next tally' es)
    (hs : stage.Sound t current shown source tally.failure?) :
    next.Sound t current shown source tally'.failure? := by
  cases h with
  | warned failed => exact failed
  | failed read => exact tally.isSome_fail _
  | counted shows read => exact ⟨shows, read⟩
  | unshown hidden read => exact read
  | looked bytes => exact hs
  | hindered bytes => exact hs.2
  | drawn bytes seen => exact hs.2
  | rested _ ended => exact hs

/-- A file is counted when it waits no longer. -/
theorem balance (h : Move t current shown total source stage tally next tally' es)
    (hshown : shown = true) (hnone : tally'.failure? = none) :
    tally'.counted + next.isWaiting.toNat = tally.counted + stage.isWaiting.toNat := by
  cases h with
  | warned failed =>
    rw [hnone] at failed
    cases failed
  | @failed _ e read =>
    have hsome := tally.isSome_fail (.read source.path e)
    rw [hnone] at hsome
    cases hsome
  | unshown hidden read =>
    rw [hshown] at hidden
    cases hidden
  | _ => rfl

theorem left (h : Move t current shown total source stage tally next tally' es) :
    next.left ≤ stage.left - 1 := by
  cases h with
  | rested _ ended => rcases ended with rfl | ⟨bytes, rfl⟩ <;> exact Nat.le_refl _
  | _ => simp [Stage.left]

end Move

/-! ## §4. The moves of one thread to the end. -/

/-- A file with which a thread is through is read, unless there is a failure. -/
theorem Stage.Sound.finished {failure? : Option BundleError} {stage : Stage}
    (h : stage.Sound t current shown source failure?) (hleft : stage.left = 0)
    (hnone : failure? = none) :
    ∃ bytes, stage = .finished bytes ∧ t.readFile current source.path = .ok bytes := by
  cases stage with
  | finished bytes => exact ⟨bytes, rfl, h⟩
  | abandoned =>
    rw [hnone] at h
    cases h
  | _ => cases hleft

/-- The moves that are left to a thread are made one after another. -/
theorem perform_finish (s : Machine) (shown : Bool) (total : Nat) {source : Source}
    {tally : Tally} {stage : Stage}
    (hs : stage.Sound s.files s.current shown source tally.failure?) : ∃ next tally' es,
    s.perform (stage.finish shown total source tally) = (.ok (next, tally'), s.telling es)
      ∧ Advances shown total (s.files.fault? s.current source) tally tally' es
      ∧ (tally'.failure? = none →
        (∃ bytes, next = .finished bytes ∧ s.files.readFile s.current source.path = .ok bytes)
          ∧ (shown = true → tally'.counted = tally.counted + stage.isWaiting.toNat)) := by
  unfold Stage.finish
  obtain ⟨stage₁, tally₁, es₁, hperform₁, hmove₁⟩ :=
    perform_move s shown total true true source tally stage
  obtain ⟨stage₂, tally₂, es₂, hperform₂, hmove₂⟩ :=
    perform_move (s.telling es₁) shown total true true source tally₁ stage₁
  obtain ⟨stage₃, tally₃, es₃, hperform₃, hmove₃⟩ :=
    perform_move ((s.telling es₁).telling es₂) shown total true true source tally₂ stage₂
  have hs₁ := hmove₁.sound hs
  have hs₂ := hmove₂.sound hs₁
  have hs₃ := hmove₃.sound hs₂
  have hadvances₃ := hmove₃.advances hs₂
  have hadvances₂ := hmove₂.advances hs₁
  have hadvances := ((hmove₁.advances hs).again hadvances₂).again hadvances₃
  refine ⟨stage₃, tally₃, es₁ ++ es₂ ++ es₃, ?_, hadvances, fun hnone => ?_⟩
  · rw [perform_bind, hperform₁]
    dsimp only
    rw [perform_bind, hperform₂]
    dsimp only
    rw [hperform₃, telling_telling, telling_telling, List.append_assoc]
  · have hleft : stage₃.left = 0 := by
      have h₁ := hmove₁.left
      have h₂ := hmove₂.left
      have h₃ := hmove₃.left
      have hstage : stage.left ≤ 3 := by cases stage <;> simp [Stage.left]
      omega
    obtain ⟨bytes, rfl, hread⟩ := hs₃.finished hleft hnone
    refine ⟨⟨bytes, rfl, hread⟩, fun hshown => ?_⟩
    have hnone₂ := hadvances₃.eq_none hnone
    have h₃ := hmove₃.balance hshown hnone
    have h₂ := hmove₂.balance hshown hnone₂
    have h₁ := hmove₁.balance hshown (hadvances₂.eq_none hnone₂)
    rw [h₂, h₁] at h₃
    exact h₃

/-- One file after another is read to the end. -/
theorem perform_finishAll (s : Machine) (shown : Bool) (total : Nat)
    {tasks : List (Source × Stage)} {tally : Tally}
    (hs : ∀ task ∈ tasks, task.2.Sound s.files s.current shown task.1 tally.failure?) :
    ∃ assets tally' es,
      s.perform (finishAll shown total tasks tally) = (.ok (assets, tally'), s.telling es)
        ∧ Advances shown total ((tasks.map Prod.fst).findSome? (s.files.fault? s.current)) tally
          tally' es
        ∧ (tally'.failure? = none → s.files.assetsOf s.current (tasks.map Prod.fst) = .ok assets
          ∧ (shown = true →
            tally'.counted = tally.counted + tasks.countP fun task => task.2.isWaiting)) := by
  induction tasks generalizing s tally with
  | nil =>
    exact ⟨[], tally, [], by rw [telling_nil]; rfl, .refl tally, fun _ => ⟨rfl, fun _ => rfl⟩⟩
  | cons task rest ih =>
    obtain ⟨source, stage⟩ := task
    obtain ⟨hfirst, hrest⟩ := List.forall_mem_cons.1 hs
    obtain ⟨next, tally₁, es₁, hperform₁, hadvances₁, hdone₁⟩ := perform_finish s shown total hfirst
    have hrest₁ : ∀ task ∈ rest,
        task.2.Sound s.files s.current shown task.1 tally₁.failure? :=
      fun task htask => (hrest task htask).mono hadvances₁.isSome
    obtain ⟨assets, tally₂, es₂, hperform₂, hadvances₂, hdone₂⟩ := ih (s.telling es₁) hrest₁
    refine ⟨(next.asset? source).toList ++ assets, tally₂, es₁ ++ es₂, ?_, ?_, fun hnone => ?_⟩
    · unfold finishAll
      rw [perform_bind, hperform₁]
      dsimp only
      rw [perform_bind, hperform₂, telling_telling]
      rfl
    · have htrans := hadvances₁.trans hadvances₂
      rw [List.map_cons, List.findSome?_cons]
      cases hfault : s.files.fault? s.current source with
      | none => rwa [hfault, Option.none_or] at htrans
      | some e => rwa [hfault, Option.some_or] at htrans
    · obtain ⟨⟨bytes, rfl, hread⟩, hcounted₁⟩ := hdone₁ (hadvances₂.eq_none hnone)
      obtain ⟨hassets, hcounted₂⟩ := hdone₂ hnone
      refine ⟨?_, fun hshown => ?_⟩
      · rw [List.map_cons, FileTree.assetsOf, hread]
        simp only [telling_files, telling_current] at hassets
        rw [hassets]
        rfl
      · rw [hcounted₂ hshown, hcounted₁ hshown, List.countP_cons]
        cases stage.isWaiting with
        | false => simp
        | true =>
          simp
          omega

/-! ## §5. Turns. -/

/-- The invariant of files that are being read. -/
structure Batch.Sound (t : FileTree) (current : Location) (shown : Bool) (sources : List Source)
    (b : Batch) : Prop where
  files : b.tasks.map Prod.fst = sources
  stages : ∀ task ∈ b.tasks, task.2.Sound t current shown task.1 b.tally.failure?
  balance : shown = true → b.tally.failure? = none →
    b.tally.counted + (b.tasks.countP fun task => task.2.isWaiting) = sources.length

variable {sources : List Source}

theorem Batch.sound_start (t : FileTree) (current : Location) (shown : Bool)
    (sources : List Source) : (Batch.start sources).Sound t current shown sources where
  files := by
    unfold Batch.start
    rw [List.map_map]
    exact List.map_id sources
  stages task htask := by
    obtain ⟨source, -, rfl⟩ := List.mem_map.1 htask
    trivial
  balance _ _ := by
    have hall : ∀ source ∈ sources, ((source, Stage.waiting).2.isWaiting) = true :=
      fun _ _ => rfl
    have hcount := List.countP_eq_length.2 hall
    unfold Batch.start
    rw [List.countP_map]
    simpa [Tally.start] using hcount

/-- A turn keeps the invariant. -/
theorem Batch.sound_turn (s : Machine) (total : Nat) {b : Batch} (turn : Turn)
    (h : b.Sound s.files s.current shown sources) : ∃ b' es,
      s.perform (b.turn shown total turn) = (.ok b', s.telling es)
        ∧ b'.Sound s.files s.current shown sources
        ∧ Advances shown total (sources[turn.file]?.bind (s.files.fault? s.current)) b.tally
          b'.tally es := by
  have hsource : sources[turn.file]? = b.tasks[turn.file]?.map Prod.fst := by
    rw [← h.files, List.getElem?_map]
  unfold Batch.turn
  rw [hsource]
  cases htask : b.tasks[turn.file]? with
  | none => exact ⟨b, [], by rw [telling_nil]; rfl, h, .refl b.tally⟩
  | some task =>
    obtain ⟨source, stage⟩ := task
    obtain ⟨hlt, hget⟩ := List.getElem?_eq_some_iff.1 htask
    have hstage := h.stages _ (List.mem_of_getElem? htask)
    obtain ⟨next, tally', es, hperform, hmove⟩ :=
      perform_move s shown total turn.warned turn.free source b.tally stage
    have hadvances := hmove.advances hstage
    refine ⟨⟨b.tasks.set turn.file (source, next), tally'⟩, es, ?_, ⟨?_, ?_, ?_⟩, hadvances⟩
    · dsimp only
      rw [perform_bind, hperform]
      rfl
    · have hlt' : turn.file < (b.tasks.map Prod.fst).length := by rwa [List.length_map]
      have hget' : (b.tasks.map Prod.fst)[turn.file] = source := by rw [List.getElem_map, hget]
      have hself := List.set_getElem_self hlt'
      rw [hget', h.files] at hself
      rw [List.map_set, h.files]
      exact hself
    · intro task hmem
      rcases List.mem_or_eq_of_mem_set hmem with hmem | rfl
      · exact (h.stages task hmem).mono hadvances.isSome
      · exact hmove.sound hstage
    · intro hshown hnone
      have hbalance := h.balance hshown (hadvances.eq_none hnone)
      have hmoved := hmove.balance hshown hnone
      -- the file is among those that wait if it waits
      have hpos : stage.isWaiting = true → 0 < b.tasks.countP fun task => task.2.isWaiting :=
        fun hw => List.countP_pos_iff.2 ⟨_, List.mem_of_getElem? htask, hw⟩
      rw [List.countP_set hlt, hget]
      dsimp only
      cases hw : stage.isWaiting <;> cases hw' : next.isWaiting <;>
        simp only [hw, hw', Bool.toNat_true, Bool.toNat_false, if_true, Bool.false_eq_true,
          if_false, forall_const] at hmoved hpos ⊢ <;> omega

/-- The turns that threads take keep the invariant. -/
theorem Batch.sound_turns (s : Machine) (total : Nat) (turns : List Turn) {b : Batch}
    (h : b.Sound s.files s.current shown sources) : ∃ b' es,
      s.perform (turns.foldlM (Batch.turn shown total) b) = (.ok b', s.telling es)
        ∧ b'.Sound s.files s.current shown sources
        ∧ Advances shown total
          (turns.findSome? fun turn => sources[turn.file]?.bind (s.files.fault? s.current)) b.tally
          b'.tally es := by
  induction turns generalizing s b with
  | nil => exact ⟨b, [], by rw [telling_nil]; rfl, h, .refl b.tally⟩
  | cons turn rest ih =>
    obtain ⟨b₁, es₁, hperform₁, hsound₁, hadvances₁⟩ := sound_turn s total turn h
    obtain ⟨b₂, es₂, hperform₂, hsound₂, hadvances₂⟩ := ih (s.telling es₁) hsound₁
    refine ⟨b₂, es₁ ++ es₂, ?_, hsound₂, ?_⟩
    · rw [List.foldlM_cons, perform_bind, hperform₁]
      dsimp only
      rw [hperform₂, telling_telling]
    · have htrans := hadvances₁.trans hadvances₂
      rw [List.findSome?_cons]
      cases hfault : sources[turn.file]?.bind (s.files.fault? s.current) with
      | none => rwa [hfault, Option.none_or] at htrans
      | some e => rwa [hfault, Option.some_or] at htrans

end

/-- A failure for no other reason than an error in the making of a bundle. -/
def BundleError.failure (e : BundleError) : Failure := .ofCause (.bundle e)

open Machine

/-- What is read and told in given turns: if no file fails, then each is counted
once; otherwise the progress line is dropped. -/
theorem perform_readInTurns (turns : List Turn) (shown : Bool) (sources : List Source)
    (s : Machine) : ∃ es : List Event, (∀ e ∈ es, shown = true ∧ e.Shows sources.length)
      ∧ ((∃ e, s.files.firstFault? s.current turns sources = some e
          ∧ s.perform (readInTurns turns shown sources)
            = (.error e.failure, s.telling (es ++ if shown then [.log .drop] else [])))
        ∨ ∃ assets, s.files.firstFault? s.current turns sources = none
          ∧ s.files.assetsOf s.current sources = .ok assets
          ∧ s.perform (readInTurns turns shown sources) = (.ok assets, s.telling es)
          ∧ (shown = true → es.countP Event.isCount = sources.length)) := by
  obtain ⟨b, es₁, hperform₁, hsound, hadvances₁⟩ := Batch.sound_turns s sources.length turns
    (Batch.sound_start s.files s.current shown sources)
  obtain ⟨assets, tally, es₂, hperform₂, hadvances₂, hdone⟩ :=
    perform_finishAll (s.telling es₁) shown sources.length hsound.stages
  have hadvances := hadvances₁.trans hadvances₂
  have hfault : tally.failure? = s.files.firstFault? s.current turns sources := by
    rw [hadvances.failure, hsound.files]
    rfl
  refine ⟨es₁ ++ es₂, hadvances.shows, ?_⟩
  unfold readInTurns
  rw [perform_bind, hperform₁]
  dsimp only
  rw [perform_bind, hperform₂, telling_telling]
  dsimp only
  rw [← hfault]
  cases hfailure : tally.failure? with
  | some e =>
    refine .inl ⟨e, rfl, ?_⟩
    cases shown with
    | true =>
      show (_, (s.telling (es₁ ++ es₂)).telling [.log .drop]) = _
      rw [telling_telling]
      rfl
    | false =>
      rw [if_neg Bool.false_ne_true, List.append_nil]
      rfl
  | none =>
    obtain ⟨hassets, hcounted⟩ := hdone hfailure
    rw [hsound.files] at hassets
    refine .inr ⟨assets, rfl, hassets, rfl, fun hshown => ?_⟩
    have hbalance := hsound.balance hshown (hadvances₂.eq_none hfailure)
    have htotal := hadvances.counted
    rw [hcounted hshown, hbalance] at htotal
    simpa [Batch.start, Tally.start] using htotal.symm

/-! ## §6. What is read. -/

namespace FileTree

variable {t : FileTree} {current : Location} {turns : List Turn} {sources : List Source}

theorem fault?_eq_none_of_assetsOf {assets : List Asset}
    (h : t.assetsOf current sources = .ok assets) {source : Source} (hm : source ∈ sources) :
    t.fault? current source = none := by
  induction sources generalizing assets with
  | nil => cases hm
  | cons first rest ih =>
    rw [assetsOf] at h
    cases hread : t.readFile current first.path with
    | error e =>
      rw [hread] at h
      cases h
    | ok bytes =>
      rw [hread] at h
      cases hrest : t.assetsOf current rest with
      | error e =>
        rw [hrest] at h
        cases h
      | ok others =>
        rcases List.mem_cons.1 hm with rfl | hm
        · exact Move.fault?_of_read hread
        · exact ih hrest hm

theorem exists_of_firstFault? {e : BundleError} (h : t.firstFault? current turns sources = some e) :
    ∃ source ∈ sources, t.fault? current source = some e := by
  rcases Option.or_eq_some_iff.1 h with h | ⟨-, h⟩
  · obtain ⟨turn, -, hturn⟩ := List.exists_of_findSome?_eq_some h
    obtain ⟨source, hsource, hfault⟩ := Option.bind_eq_some_iff.1 hturn
    exact ⟨source, List.mem_of_getElem? hsource, hfault⟩
  · exact List.exists_of_findSome?_eq_some h

theorem read_of_fault? {source : Source} {e : BundleError} (h : t.fault? current source = some e) :
    ∃ cause, e = .read source.path cause := by
  unfold fault? at h
  split at h
  · next cause _ =>
    cases h
    exact ⟨cause, rfl⟩
  · cases h

/-- Whether there is a fault to report does not depend on the turns. -/
theorem firstFault?_eq_none_iff : t.firstFault? current turns sources = none
    ↔ ∀ source ∈ sources, t.fault? current source = none := by
  constructor
  · intro h
    exact List.findSome?_eq_none_iff.1 (Option.or_eq_none_iff.1 h).2
  · intro h
    refine Option.or_eq_none_iff.2 ⟨?_, List.findSome?_eq_none_iff.2 h⟩
    refine List.findSome?_eq_none_iff.2 fun turn _ => Option.bind_eq_none_iff.2 fun source hs => ?_
    exact h source (List.mem_of_getElem? hs)

theorem exists_assetsOf (h : ∀ source ∈ sources, t.fault? current source = none) :
    ∃ assets, t.assetsOf current sources = .ok assets := by
  induction sources with
  | nil => exact ⟨[], rfl⟩
  | cons first rest ih =>
    obtain ⟨hfirst, hrest⟩ := List.forall_mem_cons.1 h
    obtain ⟨assets, hassets⟩ := ih hrest
    unfold fault? at hfirst
    cases hread : t.readFile current first.path with
    | error e =>
      rw [hread] at hfirst
      cases hfirst
    | ok bytes =>
      rw [assetsOf, hread, hassets]
      exact ⟨_, rfl⟩

/-- Reading fails by the fault that is come to first. -/
theorem readAll_eq_error_iff {e : BundleError} :
    t.readAll current turns sources = .error e ↔ t.firstFault? current turns sources = some e := by
  unfold readAll
  cases hfault : t.firstFault? current turns sources with
  | some e' => simp
  | none =>
    obtain ⟨assets, hassets⟩ := exists_assetsOf (firstFault?_eq_none_iff.1 hfault)
    rw [hassets]
    simp

/-- Whether all sources can be read does not depend on the turns. -/
theorem readAll_eq_ok_iff {assets : List Asset} :
    t.readAll current turns sources = .ok assets ↔ t.assetsOf current sources = .ok assets := by
  unfold readAll
  cases hfault : t.firstFault? current turns sources with
  | none => rfl
  | some e =>
    refine ⟨fun h => (by cases h), fun h => ?_⟩
    obtain ⟨source, hm, hsource⟩ := exists_of_firstFault? hfault
    rw [fault?_eq_none_of_assetsOf h hm] at hsource
    cases hsource

end FileTree

end AssetEmbed
