/-
  AssetEmbed.Proofs.Terminal.Replay — what a log looks like on a terminal.

  A terminal reads what a log writes, character by character.  It writes over
  the cells of its current line, and knows a few sequences that move on this
  line, clear it, or only change colours.  After every step the committed
  lines are those that have been logged or finished, and the current line is
  the progress line or empty.  What these say is told by the steps that have
  been taken, and not by the state of the log.

  Main results:
    * `Screen.replay_plain`  — text is written where the last text ended.
    * `state_step`           — the state that a log keeps, told by its steps.
    * `replay_step`          — what one step changes on the screen.
    * `replay_transcript`    — what a whole log looks like.
-/
import AssetEmbed.Proofs.Terminal.Colour

namespace AssetEmbed

/-! ## §1. A terminal. -/

/-- What a terminal shows: the lines that are committed, the current line with
the column of the cursor, and what has been read of a sequence. -/
structure Screen where
  committed : List String
  line : List Char
  column : Nat
  reading : Sgr.Scan
deriving DecidableEq, Repr

namespace Screen

/-- A screen with the cursor at the end of its current line. -/
def showing (committed : List String) (line : String) : Screen where
  committed
  line := line.toList
  column := line.toList.length
  reading := .text

/-- Writes over the cell at the cursor. -/
def put (t : Screen) (c : Char) : Screen :=
  { t with
    line := (t.line.rightpad t.column ' ').take t.column ++ c :: t.line.drop (t.column + 1)
    column := t.column + 1 }

/-- Goes on to a new line. -/
def commit (t : Screen) : Screen :=
  { t with committed := t.committed ++ [String.ofList t.line], line := [], column := 0 }

/-- Obeys a sequence: `G` moves to a column, which is counted from one, and `2K`
clears the line.  Others, as the `m` of a colour, change nothing here. -/
def obey (t : Screen) (parameters : List Char) (final : Char) : Screen :=
  if final = 'G' then
    { t with column := Nat.ofDigitChars 10 parameters 0 - 1, reading := .text }
  else if final = 'K' ∧ parameters = ['2'] then { t with line := [], reading := .text }
  else { t with reading := .text }

/-- Reads a character. -/
def read (t : Screen) (c : Char) : Screen :=
  match t.reading with
  | .text =>
    if c = Sgr.escape then { t with reading := .escape }
    else if c = '\n' then t.commit
    else t.put c
  | .escape => { t with reading := if c = '[' then .parameters [] else .text }
  | .parameters seen =>
    if Sgr.isParameter c then { t with reading := .parameters (seen ++ [c]) } else t.obey seen c

/-- Reads a text. -/
def replay (t : Screen) (text : String) : Screen := text.toList.foldl read t

theorem replay_append (t : Screen) (a b : String) : t.replay (a ++ b) = (t.replay a).replay b := by
  unfold replay
  rw [String.toList_append, List.foldl_append]

end Screen

/-! ## §2. Text on a terminal. -/

/-- Whether a text holds neither a line feed nor an escape character.  A text
without control characters does not. -/
def IsPlain (text : String) : Prop := ∀ c ∈ text.toList, c ≠ Sgr.escape ∧ c ≠ '\n'

instance (text : String) : Decidable (IsPlain text) :=
  List.decidableBAll (fun c => c ≠ Sgr.escape ∧ c ≠ '\n') _

theorem IsPlain.append {a b : String} (ha : IsPlain a) (hb : IsPlain b) : IsPlain (a ++ b) := by
  intro c hc
  rw [String.toList_append] at hc
  exact (List.mem_append.1 hc).elim (ha c) (hb c)

theorem isPlain_toString (n : Nat) : IsPlain (toString n) := by
  intro c hc
  rw [Nat.toString_eq_repr, Nat.toList_repr] at hc
  have hdigit : c.isDigit = true := Nat.isDigit_of_mem_toDigits (by omega) (by omega) hc
  constructor
  · rintro rfl
    cases hdigit
  · rintro rfl
    cases hdigit

theorem isPlain_intercalate {sep : String} (hsep : IsPlain sep) {texts : List String}
    (h : ∀ text ∈ texts, IsPlain text) : IsPlain (String.intercalate sep texts) := by
  induction texts with
  | nil => exact fun c hc => absurd hc (by simp)
  | cons text rest ih =>
    obtain ⟨htext, hrest⟩ := List.forall_mem_cons.1 h
    cases rest with
    | nil => rwa [String.intercalate_singleton]
    | cons next others =>
      rw [String.intercalate_cons_cons]
      exact (htext.append hsep).append (ih hrest)

namespace Screen

variable {done : List String} {line : String}

/-- A character at the end of a line is appended to it. -/
theorem put_end (committed : List String) (cs : List Char) (c : Char) :
    put ⟨committed, cs, cs.length, .text⟩ c
      = ⟨committed, cs ++ [c], (cs ++ [c]).length, .text⟩ := by
  simp [put, List.rightpad]

theorem foldl_read_plain {cs : List Char} (h : ∀ c ∈ cs, c ≠ Sgr.escape ∧ c ≠ '\n')
    (committed : List String) (front : List Char) :
    cs.foldl read ⟨committed, front, front.length, .text⟩
      = ⟨committed, front ++ cs, (front ++ cs).length, .text⟩ := by
  induction cs generalizing front with
  | nil => rw [List.append_nil]; rfl
  | cons c rest ih =>
    obtain ⟨⟨hescape, hfeed⟩, hrest⟩ := List.forall_mem_cons.1 h
    have hread : read ⟨committed, front, front.length, .text⟩ c
        = ⟨committed, front ++ [c], (front ++ [c]).length, .text⟩ := by
      rw [← put_end]
      simp only [read, if_neg hescape, if_neg hfeed]
    rw [List.foldl_cons, hread, ih hrest, List.append_assoc]
    rfl

/-- Text is written where the last text ended. -/
theorem replay_plain {text : String} (h : IsPlain text) :
    (showing done line).replay text = showing done (line ++ text) := by
  unfold replay showing
  rw [foldl_read_plain h, String.toList_append]

theorem foldl_read_parameters {cs : List Char} (h : ∀ c ∈ cs, Sgr.isParameter c = true)
    (t : Screen) (seen : List Char) :
    cs.foldl read { t with reading := .parameters seen }
      = { t with reading := .parameters (seen ++ cs) } := by
  induction cs generalizing seen with
  | nil => rw [List.append_nil]; rfl
  | cons c rest ih =>
    obtain ⟨hc, hrest⟩ := List.forall_mem_cons.1 h
    have hread : read { t with reading := .parameters seen } c
        = { t with reading := .parameters (seen ++ [c]) } := if_pos hc
    rw [List.foldl_cons, hread, ih hrest, List.append_assoc]
    rfl

/-- Colours are not seen. -/
theorem replay_sgr {parameters : String} (h : ∀ c ∈ parameters.toList, Sgr.isParameter c = true) :
    (showing done line).replay (Style.sgr parameters) = showing done line := by
  unfold replay
  rw [toList_sgr, Sgr.code, List.foldl_cons, List.foldl_cons, List.foldl_append]
  exact congrArg (·.read 'm') (foldl_read_parameters h (showing done line) [])

theorem replay_apply {style : Style} (hstyle : style.Proper) (color : Bool) {text : String}
    (h : IsPlain text) :
    (showing done line).replay (style.apply color text) = showing done (line ++ text) := by
  have hstart : ∀ c ∈ style.start.toList, Sgr.isParameter c = true :=
    fun c hc => hstyle c (List.mem_append_left _ hc)
  have hfinish : ∀ c ∈ style.finish.toList, Sgr.isParameter c = true :=
    fun c hc => hstyle c (List.mem_append_right _ hc)
  unfold Style.apply
  split
  · rw [replay_append, replay_append, replay_sgr hstart, replay_plain h, replay_sgr hfinish]
  · exact replay_plain h

/-- Whatever is on the current line, it can be made empty. -/
theorem replay_wipe (done : List String) (line : String) :
    (showing done line).replay Log.wipe = showing done "" := rfl

theorem replay_lineFeed (done : List String) (line : String) :
    (showing done line).replay "\n" = showing (done ++ [line]) "" := by
  have hcommit : (showing done line).replay "\n" = (showing done line).commit := rfl
  rw [hcommit, commit, showing, String.ofList_toList]
  rfl

end Screen

namespace Log

/-! ## §3. What has happened.

The steps that a log has taken are listed here with the latest one first. -/

/-- Whether lines for verbose runs are shown. -/
def isVerbose : List Step → Bool
  | [] => false
  | .setVerbose verbose :: _ => verbose
  | _ :: past => isVerbose past

/-- A progress line: what it was started with, and what has happened since. -/
structure Live where
  items : List (String × Nat)
  since : List Step
deriving DecidableEq, Repr

/-- The progress line after one more step. -/
def Live.push (step : Step) (l : Live) : Live := { l with since := step :: l.since }

/-- The progress line that has been started and neither finished nor dropped. -/
def live? : List Step → Option Live
  | [] => none
  | .progress items :: _ => some ⟨items, []⟩
  | .finish :: _ => none
  | .drop :: _ => none
  | step :: past => (live? past).map (Live.push step)

/-- Counters for items: how often each name has been counted, but nothing for a
name that has been seen before. -/
def tally (since : List Step) : List String → List (String × Nat) → List Counter
  | _, [] => []
  | seen, (name, total) :: rest =>
    ⟨name, total, if name ∈ seen then 0 else since.count (.increment name)⟩
      :: tally since (name :: seen) rest

/-- The counters of a progress line, without those of nothing. -/
def Live.counters (l : Live) : List Counter :=
  tally l.since [] (l.items.filter fun item => item.2 > 0)

/-- How a message of a module is shown. -/
def shownLine (module message : String) : String := "[" ++ module ++ "] " ++ message

/-- How a progress line is shown. -/
def Live.line (l : Live) : String := shownLine "bundle" (displayCounters l.counters)

/-- The line that a step logs, if it does. -/
def logged? (past : List Step) : Step → Option String
  | .log module message => some (shownLine module message)
  | .debug module message => if isVerbose past then some (shownLine module message) else none
  | _ => none

/-- Whether a step draws the progress line. -/
def redraws (past : List Step) : Step → Bool
  | .progress _ => true
  | .increment name => (live? past).any fun l => l.counters.any (·.name == name)
  | _ => false

/-- Whether nothing has been logged since the progress line was last drawn. -/
def isDrawn : List Step → Bool
  | [] => false
  | step :: past => redraws past step || ((logged? past step).isNone && isDrawn past)

/-- The line that a step commits, if it does. -/
def commits? (past : List Step) : Step → Option String
  | .finish => (live? past).map Live.line
  | step => logged? past step

/-- The lines that have been committed. -/
def committed : List Step → List String
  | [] => []
  | step :: past => committed past ++ (commits? past step).toList

/-- The line that has not been committed yet. -/
def currentLine (past : List Step) : String :=
  match live? past with
  | none => ""
  | some l => if isDrawn past then l.line else ""

/-- Whether the texts of a step are plain.  Any name may be counted up. -/
def Step.Plain : Step → Prop
  | .log module message => IsPlain module ∧ IsPlain message
  | .debug module message => IsPlain module ∧ IsPlain message
  | .progress items => ∀ item ∈ items, IsPlain item.1
  | _ => True

instance : DecidablePred Step.Plain := fun step =>
  match step with
  | .log module message => inferInstanceAs (Decidable (IsPlain module ∧ IsPlain message))
  | .debug module message => inferInstanceAs (Decidable (IsPlain module ∧ IsPlain message))
  | .progress items => inferInstanceAs (Decidable (∀ item ∈ items, IsPlain item.1))
  | .setVerbose _ => isTrue trivial
  | .increment _ => isTrue trivial
  | .finish => isTrue trivial
  | .drop => isTrue trivial

/-! ## §4. The state of a log. -/

/-- The state of a log after steps. -/
def stateAfter (past : List Step) : State where
  verbose := isVerbose past
  live := (live? past).map Live.counters
  active := (live? past).isSome

theorem tally_push {step : Step} (h : ∀ name, step ≠ .increment name) (since : List Step)
    (seen : List String) (items : List (String × Nat)) :
    tally (step :: since) seen items = tally since seen items := by
  induction items generalizing seen with
  | nil => rfl
  | cons item rest ih =>
    rw [tally, tally, ih, List.count_cons_of_ne (h item.1)]

/-- A name that has been seen before is not counted. -/
theorem tally_increment_of_mem {name : String} {seen : List String} (h : name ∈ seen)
    (since : List Step) (items : List (String × Nat)) :
    tally (.increment name :: since) seen items = tally since seen items := by
  induction items generalizing seen with
  | nil => rfl
  | cons item rest ih =>
    rw [tally, tally, ih (List.mem_cons_of_mem _ h)]
    split
    · rfl
    · next hseen =>
      have hne : Step.increment name ≠ .increment item.1 := fun heq => by
        cases heq
        exact hseen h
      rw [List.count_cons_of_ne hne]

/-- Counting a name up counts at the first counter of the name. -/
theorem increment_tally {name : String} {seen : List String} (h : name ∉ seen)
    (since : List Step) (items : List (String × Nat)) :
    increment name (tally since seen items) = tally (.increment name :: since) seen items := by
  induction items generalizing seen with
  | nil => rfl
  | cons item rest ih =>
    obtain ⟨name', total⟩ := item
    rw [tally, tally, increment]
    by_cases hname : name' = name
    · subst hname
      rw [if_pos rfl, if_neg h, if_neg h, List.count_cons_self,
        tally_increment_of_mem List.mem_cons_self]
    · have hne : Step.increment name ≠ .increment name' := fun heq => hname (by cases heq; rfl)
      have hseen : name ∉ name' :: seen := fun hmem =>
        (List.mem_cons.1 hmem).elim (fun heq => hname heq.symm) h
      rw [if_neg hname, List.count_cons_of_ne hne, ih hseen]

theorem increment_of_not_any {name : String} {counters : List Counter}
    (h : counters.any (·.name == name) = false) : increment name counters = counters := by
  induction counters with
  | nil => rfl
  | cons c rest ih =>
    rw [List.any_cons, Bool.or_eq_false_iff, beq_eq_false_iff_ne] at h
    rw [increment, if_neg h.1, ih h.2]

namespace Live

theorem counters_push {step : Step} (h : ∀ name, step ≠ .increment name) (l : Live) :
    (l.push step).counters = l.counters :=
  tally_push h l.since [] _

theorem counters_push_increment (name : String) (l : Live) :
    (l.push (.increment name)).counters = increment name l.counters :=
  (increment_tally List.not_mem_nil l.since _).symm

end Live

theorem startCounters_eq (items : List (String × Nat)) :
    startCounters items = Live.counters ⟨items, []⟩ := by
  have hall : ∀ seen, ∀ items : List (String × Nat),
      tally [] seen items = items.map fun item => ⟨item.1, item.2, 0⟩ := by
    intro seen items
    induction items generalizing seen with
    | nil => rfl
    | cons item rest ih =>
      rw [tally, ih, List.count_nil, ite_self]
      rfl
  exact (hall [] _).symm

/-- The state that a log keeps is told by its steps. -/
theorem state_step (color : Bool) (past : List Step) (step : Step) :
    ((stateAfter past).step color step).1 = stateAfter (step :: past) := by
  -- a step of another kind leaves the progress line and what it counts
  have hkept : (∀ name, step ≠ .increment name) →
      ((live? past).map (Live.push step)).map Live.counters = (live? past).map Live.counters := by
    intro h
    rw [Option.map_map]
    exact Option.map_congr fun l _ => Live.counters_push h l
  cases step with
  | setVerbose verbose =>
    simp only [State.step, stateAfter, isVerbose, live?, hkept (by simp), Option.isSome_map]
  | log module message =>
    simp only [State.step, stateAfter, isVerbose, live?, hkept (by simp), Option.isSome_map]
  | debug module message =>
    simp only [State.step, stateAfter, isVerbose, live?, hkept (by simp), Option.isSome_map]
  | progress items =>
    simp only [State.step, stateAfter, isVerbose, live?, startCounters_eq, Option.map_some,
      Option.isSome_some]
  | increment name =>
    cases hlive : live? past with
    | none => simp [State.step, stateAfter, isVerbose, live?, hlive]
    | some l =>
      simp only [State.step, stateAfter, isVerbose, live?, hlive, Option.map_some,
        Live.counters_push_increment, Option.isSome_some]
      split
      · rfl
      · next hmissing => rw [increment_of_not_any (Bool.eq_false_iff.2 hmissing)]
  | finish =>
    cases hlive : live? past <;> simp [State.step, stateAfter, isVerbose, live?, hlive]
  | drop =>
    cases hlive : live? past <;> simp [State.step, stateAfter, isVerbose, live?, hlive]

/-! ## §5. The screen of a log. -/

/-- The screen after steps. -/
def screenAfter (past : List Step) : Screen := .showing (committed past) (currentLine past)

theorem isPlain_display {c : Counter} (h : IsPlain c.name) : IsPlain c.display := by
  have hcurrent : IsPlain (c.name ++ "(" ++ toString c.current) :=
    (h.append (by decide)).append (isPlain_toString c.current)
  have htotal : IsPlain (c.name ++ "(" ++ toString c.current ++ "/" ++ toString c.total) :=
    (hcurrent.append (by decide)).append (isPlain_toString c.total)
  exact htotal.append (by decide)

theorem isPlain_displayCounters {counters : List Counter} (h : ∀ c ∈ counters, IsPlain c.name) :
    IsPlain (displayCounters counters) := by
  refine isPlain_intercalate (by decide) fun text htext => ?_
  obtain ⟨c, hc, rfl⟩ := List.mem_map.1 htext
  exact isPlain_display (h c hc)

theorem exists_of_mem_tally {since : List Step} {seen : List String}
    {items : List (String × Nat)} {c : Counter} (h : c ∈ tally since seen items) :
    ∃ item ∈ items, c.name = item.1 := by
  induction items generalizing seen with
  | nil => cases h
  | cons item rest ih =>
    rcases List.mem_cons.1 h with rfl | h
    · exact ⟨item, List.mem_cons_self, rfl⟩
    · obtain ⟨other, hother, hname⟩ := ih h
      exact ⟨other, List.mem_cons_of_mem _ hother, hname⟩

/-- The names in a progress line are those it was started with. -/
theorem isPlain_of_live? {past : List Step} (h : ∀ step ∈ past, step.Plain) {l : Live}
    (hl : live? past = some l) : ∀ item ∈ l.items, IsPlain item.1 := by
  induction past generalizing l with
  | nil => cases hl
  | cons step past ih =>
    obtain ⟨hstep, hpast⟩ := List.forall_mem_cons.1 h
    have hpushed : (live? past).map (Live.push step) = some l →
        ∀ item ∈ l.items, IsPlain item.1 := by
      intro hl
      obtain ⟨front, hfront, rfl⟩ := Option.map_eq_some_iff.1 hl
      show ∀ item ∈ front.items, IsPlain item.1
      exact ih hpast hfront
    cases step with
    | progress items =>
      cases hl
      exact hstep
    | finish => cases hl
    | drop => cases hl
    | _ => exact hpushed hl

theorem isPlain_counters {past : List Step} (h : ∀ step ∈ past, step.Plain) {l : Live}
    (hl : live? past = some l) : IsPlain (displayCounters l.counters) := by
  refine isPlain_displayCounters fun c hc => ?_
  obtain ⟨item, hitem, hname⟩ := exists_of_mem_tally hc
  rw [hname]
  exact isPlain_of_live? h hl item (List.mem_of_mem_filter hitem)

section
variable {done : List String} {line module message : String}

theorem replay_logLine (color : Bool) (hmodule : IsPlain module) (hmessage : IsPlain message) :
    (Screen.showing done line).replay (logLine color module message)
      = .showing done (line ++ shownLine module message) := by
  have htag : IsPlain ("[" ++ module ++ "]") :=
    (IsPlain.append (by decide) hmodule).append (by decide)
  have hspace : IsPlain " " := by decide
  unfold logLine tag shownLine
  rw [Screen.replay_append, Screen.replay_append, Screen.replay_apply (proper_moduleStyle module)
    color htag, Screen.replay_plain hspace, Screen.replay_plain hmessage]
  simp only [String.append_assoc]
  rfl

/-- A progress line replaces what is on the current line. -/
theorem replay_drawProgress (color : Bool) {counters : List Counter}
    (h : IsPlain (displayCounters counters)) :
    (Screen.showing done line).replay (drawProgress color counters)
      = .showing done (shownLine "bundle" (displayCounters counters)) := by
  unfold drawProgress
  rw [Screen.replay_append, Screen.replay_wipe, replay_logLine color (by decide) h,
    String.empty_append]

/-- A log line is committed, and what was on the current line is gone. -/
theorem replay_writeLine (color : Bool) {past : List Step} (hmodule : IsPlain module)
    (hmessage : IsPlain message) :
    (screenAfter past).replay ((stateAfter past).writeLine color module message)
      = .showing (committed past ++ [shownLine module message]) "" := by
  have hwiped : (screenAfter past).replay (if (stateAfter past).active then wipe else "")
      = .showing (committed past) "" := by
    unfold screenAfter stateAfter currentLine
    cases live? past with
    | none => rfl
    | some l => exact Screen.replay_wipe _ _
  unfold State.writeLine
  rw [Screen.replay_append, Screen.replay_append, hwiped, replay_logLine color hmodule hmessage,
    Screen.replay_lineFeed, String.empty_append]

end

/-- After a step that is not about the progress line this looks as before, if
nothing has been logged. -/
theorem currentLine_push {past : List Step} {step : Step}
    (hlive : live? (step :: past) = (live? past).map (Live.push step))
    (hother : ∀ name, step ≠ .increment name) (hdrawn : isDrawn (step :: past) = isDrawn past) :
    currentLine (step :: past) = currentLine past := by
  unfold currentLine
  rw [hlive, hdrawn]
  cases live? past with
  | none => rfl
  | some l =>
    show (if isDrawn past then (l.push step).line else "") = _
    rw [Live.line, Live.counters_push hother]
    rfl

theorem currentLine_of_not_isDrawn {past : List Step} (h : isDrawn past = false) :
    currentLine past = "" := by
  unfold currentLine
  rw [h]
  cases live? past <;> rfl

theorem screenAfter_cons (step : Step) (past : List Step) :
    screenAfter (step :: past)
      = .showing (committed past ++ (commits? past step).toList) (currentLine (step :: past)) := rfl

theorem screenAfter_of_none {past : List Step} (h : live? past = none) :
    screenAfter past = .showing (committed past) "" := by
  rw [screenAfter, currentLine, h]

/-- Counting up draws the progress line again if the name is in it. -/
theorem replay_increment (color : Bool) {past : List Step} (hpast : ∀ step ∈ past, step.Plain)
    (name : String) :
    (screenAfter past).replay ((stateAfter past).step color (.increment name)).2
      = screenAfter (.increment name :: past) := by
  rw [screenAfter_cons]
  show _ = Screen.showing (committed past ++ []) _
  rw [List.append_nil]
  cases hlive : live? past with
  | none =>
    have hline : currentLine past = currentLine (.increment name :: past) := by
      simp [currentLine, live?, hlive]
    rw [← hline]
    simp only [State.step, stateAfter, hlive, Option.map_none]
    rfl
  | some l =>
    have hcounters := Live.counters_push_increment name l
    have hpushed : live? (.increment name :: past) = some (l.push (.increment name)) := by
      simp [live?, hlive]
    simp only [State.step, stateAfter, hlive, Option.map_some]
    cases hnamed : l.counters.any (·.name == name) with
    | true =>
      -- the line is drawn with the new count
      have hdrawn : isDrawn (.increment name :: past) = true := by
        simp [isDrawn, redraws, hlive, hnamed]
      have hall : ∀ step ∈ Step.increment name :: past, step.Plain :=
        List.forall_mem_cons.2 ⟨trivial, hpast⟩
      have hplain := isPlain_counters hall hpushed
      rw [if_pos rfl, ← hcounters, screenAfter, replay_drawProgress color hplain, currentLine,
        hpushed, hdrawn]
      rfl
    | false =>
      -- a name that is not in the line changes no counter of it
      have hdrawn : isDrawn (.increment name :: past) = isDrawn past := by
        simp [isDrawn, redraws, logged?, hlive, hnamed]
      have hline : (l.push (.increment name)).line = l.line := by
        rw [Live.line, hcounters, increment_of_not_any hnamed, Live.line]
      rw [if_neg Bool.false_ne_true, screenAfter, currentLine, currentLine, hpushed, hdrawn, hlive]
      dsimp only
      rw [hline]
      rfl

/-- What one step changes on the screen. -/
theorem replay_step (color : Bool) {past : List Step} {step : Step}
    (hpast : ∀ step ∈ past, step.Plain) (hstep : step.Plain) :
    (screenAfter past).replay ((stateAfter past).step color step).2
      = screenAfter (step :: past) := by
  cases step with
  | setVerbose verbose =>
    rw [screenAfter_cons, currentLine_push rfl (by simp) rfl]
    show screenAfter past = .showing (committed past ++ []) (currentLine past)
    rw [List.append_nil]
    rfl
  | log module message =>
    rw [screenAfter_cons, currentLine_of_not_isDrawn rfl]
    exact replay_writeLine color hstep.1 hstep.2
  | debug module message =>
    have hcommits : commits? past (.debug module message)
        = if isVerbose past then some (shownLine module message) else none := rfl
    rw [screenAfter_cons, hcommits]
    cases hverbose : isVerbose past with
    | true =>
      have hdrawn : isDrawn (.debug module message :: past) = false := by
        simp [isDrawn, redraws, logged?, hverbose]
      rw [currentLine_of_not_isDrawn hdrawn]
      simp only [State.step, stateAfter, hverbose, if_true]
      rw [← hverbose]
      exact replay_writeLine color hstep.1 hstep.2
    | false =>
      have hdrawn : isDrawn (.debug module message :: past) = isDrawn past := by
        simp [isDrawn, redraws, logged?, hverbose]
      rw [currentLine_push rfl (by simp) hdrawn]
      simp only [State.step, stateAfter, hverbose, Bool.false_eq_true, if_false, Option.toList_none,
        List.append_nil]
      rfl
  | progress items =>
    have hplain : IsPlain (displayCounters (startCounters items)) := by
      rw [startCounters_eq]
      exact isPlain_counters (List.forall_mem_cons.2 ⟨hstep, hpast⟩) rfl
    -- whatever is left of the line before is drawn over
    obtain ⟨left, hleft⟩ : ∃ left, (screenAfter past).replay
        (if (live? past).isSome then wipe else "") = .showing (committed past) left := by
      cases (live? past).isSome with
      | true => exact ⟨"", Screen.replay_wipe _ _⟩
      | false => exact ⟨currentLine past, rfl⟩
    rw [screenAfter_cons]
    simp only [State.step, stateAfter, Option.isSome_map]
    rw [Screen.replay_append, hleft, replay_drawProgress color hplain, startCounters_eq]
    show _ = Screen.showing (committed past ++ []) _
    rw [List.append_nil]
    rfl
  | increment name => exact replay_increment color hpast name
  | finish =>
    have hcommits : commits? past .finish = (live? past).map Live.line := rfl
    have hempty : currentLine (.finish :: past) = "" := rfl
    rw [screenAfter_cons, hcommits, hempty]
    simp only [State.step, stateAfter]
    cases hlive : live? past with
    | none =>
      simp only [Option.map_none, Option.toList_none, List.append_nil]
      exact screenAfter_of_none hlive
    | some l =>
      have hplain := isPlain_counters hpast hlive
      simp only [Option.map_some]
      rw [Screen.replay_append, screenAfter, replay_drawProgress color hplain,
        Screen.replay_lineFeed]
      rfl
  | drop =>
    have hcommits : commits? past .drop = none := rfl
    have hempty : currentLine (.drop :: past) = "" := rfl
    rw [screenAfter_cons, hcommits, hempty, Option.toList_none, List.append_nil]
    simp only [State.step, stateAfter]
    cases hlive : live? past with
    | none => exact screenAfter_of_none hlive
    | some l => exact Screen.replay_wipe _ _

/-! ## §6. A whole log. -/

/-- What is shown after more steps. -/
theorem replay_steps (color : Bool) {past steps : List Step} (hpast : ∀ step ∈ past, step.Plain)
    (hsteps : ∀ step ∈ steps, step.Plain) :
    (screenAfter past).replay (String.join (transcript color (stateAfter past) steps))
      = screenAfter (steps.reverse ++ past) := by
  induction steps generalizing past with
  | nil => rfl
  | cons step rest ih =>
    obtain ⟨hstep, hrest⟩ := List.forall_mem_cons.1 hsteps
    rw [transcript, String.join_cons, Screen.replay_append, replay_step color hpast hstep,
      state_step, ih (List.forall_mem_cons.2 ⟨hstep, hpast⟩) hrest, List.reverse_cons,
      List.append_assoc]
    rfl

/-- The state that a log keeps after steps. -/
def State.run (color : Bool) (st : State) (steps : List Step) : State :=
  steps.foldl (fun st step => (st.step color step).1) st

theorem run_stateAfter (color : Bool) (past steps : List Step) :
    (stateAfter past).run color steps = stateAfter (steps.reverse ++ past) := by
  induction steps generalizing past with
  | nil => rfl
  | cons step rest ih =>
    rw [State.run, List.foldl_cons, state_step, List.reverse_cons, List.append_assoc]
    exact ih (step :: past)

/-- A log looks on a terminal as its steps say: the lines that were logged or
finished are committed, and the current line is the progress line, or empty if
there is none or something has been logged since it was drawn.  Log lines clear
the current line just while there is a progress line. -/
theorem replay_transcript (color : Bool) (steps : List Step) (h : ∀ step ∈ steps, step.Plain) :
    (Screen.showing [] "").replay (String.join (transcript color .initial steps))
        = .showing (committed steps.reverse) (currentLine steps.reverse)
      ∧ (State.initial.run color steps).active = (live? steps.reverse).isSome
      ∧ (State.initial.run color steps).live = (live? steps.reverse).map Live.counters
      ∧ (State.initial.run color steps).verbose = isVerbose steps.reverse := by
  have hnone : ∀ step ∈ ([] : List Step), step.Plain := fun step hstep => nomatch hstep
  have hscreen := replay_steps color hnone h
  have hstate := run_stateAfter color [] steps
  rw [List.append_nil] at hscreen hstate
  exact ⟨hscreen, congrArg State.active hstate, congrArg State.live hstate,
    congrArg State.verbose hstate⟩

/-- A progress line with a message in between, and two counters of one name. -/
def interrupted : List Step :=
  [.progress [("read", 3), ("skip", 0), ("read", 1)], .increment "read", .increment "skip",
    .log "list" "two files", .increment "read"]

/-- The message is committed, and the progress line is there again after it. -/
theorem replay_transcript_interrupted :
    (∀ step ∈ interrupted, step.Plain)
      ∧ (Screen.showing [] "").replay (String.join (transcript true .initial interrupted))
        = .showing ["[list] two files"] "[bundle] read(2/3) read(0/1)"
      ∧ (State.initial.run true interrupted).active = true := by
  have hplain : ∀ step ∈ interrupted, step.Plain := by decide
  have hcommitted : committed interrupted.reverse = ["[list] two files"] := by decide +kernel
  have hline : currentLine interrupted.reverse = "[bundle] read(2/3) read(0/1)" := by
    decide +kernel
  obtain ⟨hscreen, hactive, -⟩ := replay_transcript true interrupted hplain
  rw [hcommitted, hline] at hscreen
  exact ⟨hplain, hscreen, hactive⟩

end Log

end AssetEmbed
