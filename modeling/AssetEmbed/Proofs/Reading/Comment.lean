/-
  AssetEmbed.Proofs.Reading.Comment — program text without its line comments.

  A text is first cut into logical lines: in C++ a backslash right before a
  line feed joins two lines.  A machine then goes over the characters and
  drops everything from `//` outside of a string literal to the end of the
  logical line.

  Main results:
    * `program_append`  — after a stretch of text that ends outside of comments
      and literals, reading starts afresh.
    * `Kept.line`       — a line without a comment is kept.
    * `Kept.comment`    — of a line that ends in a comment the text before the
      comment is kept, whatever the comment says.
-/
import AssetEmbed.Source.Target

namespace AssetEmbed.Reading

/-! ## §1. Machines. -/

section
variable {σ α β : Type}

/-- Runs a machine over a text: the state that it ends in, and what it puts
out on the way. -/
def transduce (step : σ → α → σ × List β) : σ → List α → σ × List β
  | k, [] => (k, [])
  | k, a :: rest =>
    ((transduce step (step k a).1 rest).1, (step k a).2 ++ (transduce step (step k a).1 rest).2)

theorem transduce_append (step : σ → α → σ × List β) (k : σ) (xs ys : List α) :
    transduce step k (xs ++ ys)
      = ((transduce step (transduce step k xs).1 ys).1,
         (transduce step k xs).2 ++ (transduce step (transduce step k xs).1 ys).2) := by
  induction xs generalizing k with
  | nil => rfl
  | cons a rest ih => simp only [List.cons_append, transduce, ih, List.append_assoc]

/-- Two runs, one after the other. -/
theorem transduce_append_of_eq {step : σ → α → σ × List β} {k k' k'' : σ} {xs ys : List α}
    {out out' : List β} (hx : transduce step k xs = (k', out))
    (hy : transduce step k' ys = (k'', out')) :
    transduce step k (xs ++ ys) = (k'', out ++ out') := by
  rw [transduce_append, hx, hy]

end

/-! ## §2. Logical lines. -/

/-- Takes out every backslash right before a line feed, with the line feed. -/
def splice : List Char → List Char
  | '\\' :: '\n' :: rest => splice rest
  | c :: rest => c :: splice rest
  | [] => []

/-- The text of logical lines. -/
def logical : Target → List Char → List Char
  | .cpp, text => splice text
  | .rust, text => text

theorem splice_append {cs : List Char} (h : cs.getLast? ≠ some '\\') (rest : List Char) :
    splice (cs ++ rest) = splice cs ++ splice rest := by
  fun_induction splice cs with
  | case1 tail ih =>
    -- a joined line goes on; what is left of it ends as the text did
    refine ih fun hl => h ?_
    cases tail with
    | nil => cases hl
    | cons c cs => simpa using hl
  | case2 c tail hne ih =>
    cases tail with
    | nil =>
      -- the last character is no backslash, so it joins nothing to the rest
      have hc : c ≠ '\\' := fun hc => h (by rw [hc]; rfl)
      have hno : ∀ tail, c = '\\' → rest = '\n' :: tail → False := fun _ heq => absurd heq hc
      simp only [List.cons_append, List.nil_append, splice]
    | cons d tail =>
      -- with a character after `c`, what joins is decided before the rest
      have hi := ih (by simpa using h)
      rw [List.cons_append, splice, hi, List.cons_append]
      exact fun _ hc hcons => hne tail hc (by rw [(List.cons.inj hcons).1])
  | case3 => rfl

/-- A text without line feeds is one logical line as it is. -/
theorem splice_eq_self {cs : List Char} (h : '\n' ∉ cs) : splice cs = cs := by
  fun_induction splice cs with
  | case1 tail ih => exact absurd (List.mem_cons_of_mem _ List.mem_cons_self) h
  | case2 c tail hne ih => rw [ih fun hm => h (List.mem_cons_of_mem c hm)]
  | case3 => rfl

theorem logical_append {target : Target} {cs : List Char} (h : cs.getLast? ≠ some '\\')
    (rest : List Char) :
    logical target (cs ++ rest) = logical target cs ++ logical target rest := by
  cases target with
  | cpp => exact splice_append h rest
  | rust => rfl

theorem logical_eq_self {target : Target} {cs : List Char} (h : '\n' ∉ cs) :
    logical target cs = cs := by
  cases target with
  | cpp => exact splice_eq_self h
  | rust => rfl

theorem getLast?_line (line : List Char) : (line ++ ['\n']).getLast? ≠ some '\\' := by
  rw [List.getLast?_concat]
  decide

/-- Whether a line of text, with a line feed after it, is one logical line. -/
def OneLine (target : Target) (line : List Char) : Prop :=
  (logical target (line ++ ['\n'])).dropWhile (· != '\n') = ['\n']

instance (target : Target) (line : List Char) : Decidable (OneLine target line) :=
  inferInstanceAs (Decidable (_ = _))

theorem dropWhile_append_of_notMem {front : List Char} (h : '\n' ∉ front) (rest : List Char) :
    (front ++ rest).dropWhile (· != '\n') = rest.dropWhile (· != '\n') := by
  refine List.dropWhile_append_of_pos fun c hc => ?_
  simpa using fun heq : c = '\n' => h (heq ▸ hc)

/-- Plain text in front of a line does not matter to whether it is one. -/
theorem oneLine_append {target : Target} {front : List Char} (hf : '\n' ∉ front)
    (hl : front.getLast? ≠ some '\\') (line : List Char) :
    OneLine target (front ++ line) ↔ OneLine target line := by
  unfold OneLine
  rw [List.append_assoc, logical_append hl, logical_eq_self hf, dropWhile_append_of_notMem hf]

theorem oneLine_of_notMem {target : Target} {line : List Char} (h : '\n' ∉ line)
    (hl : target = .cpp → line.getLast? ≠ some '\\') : OneLine target line := by
  have hlogical : logical target (line ++ ['\n']) = line ++ ['\n'] := by
    cases target with
    | cpp => rw [logical_append (hl rfl), logical_eq_self h]; rfl
    | rust => rfl
  unfold OneLine
  rw [hlogical, dropWhile_append_of_notMem h]
  rfl

/-- In Rust only a line feed ends a line. -/
theorem oneLine_rust_iff {line : List Char} : OneLine .rust line ↔ '\n' ∉ line := by
  refine ⟨fun h hm => ?_, fun h => oneLine_of_notMem h fun ht => by cases ht⟩
  -- what stands after the first line feed would be left over
  obtain ⟨front, back, rfl, hfront⟩ := List.eq_append_cons_of_mem hm
  unfold OneLine logical at h
  rw [List.append_assoc, dropWhile_append_of_notMem hfront] at h
  exact absurd (List.cons.inj h).2 (by simp)

/-! ## §3. Comments. -/

/-- Where a character stands. -/
inductive Place where
  | code
  /-- After a slash that may begin a comment. -/
  | slash
  | comment
  /-- Inside a string literal. -/
  | literal
  /-- After a backslash inside a string literal. -/
  | escape
deriving DecidableEq, Repr

/-- Passes a character on unless it belongs to a comment.  A slash waits for
the character after it; the line feed that ends a comment is passed on. -/
def uncomment : Place → Char → Place × List Char
  -- a slash is not passed on before the next character is known
  | .code, c =>
    if c = '/' then (.slash, [])
    else if c = '"' then (.literal, [c])
    else (.code, [c])
  | .slash, c =>
    if c = '/' then (.comment, [])
    else if c = '"' then (.literal, ['/', c])
    else (.code, ['/', c])
  | .comment, c => if c = '\n' then (.code, [c]) else (.comment, [])
  | .literal, c =>
    if c = '"' then (.code, [c])
    else if c = '\\' then (.escape, [c])
    else (.literal, [c])
  | .escape, c => (.literal, [c])

/-- What still waits at the end of a text. -/
def Place.pending : Place → List Char
  | .slash => ['/']
  | _ => []

/-- What is left of a text that begins at a place. -/
def uncommented (k : Place) (cs : List Char) : List Char :=
  (transduce uncomment k cs).2 ++ (transduce uncomment k cs).1.pending

/-- The text without its line comments. -/
def program (target : Target) (text : List Char) : List Char :=
  uncommented .code (logical target text)

/-- Inside a comment nothing matters before the next line feed. -/
theorem transduce_comment (cs : List Char) :
    transduce uncomment .comment cs
      = transduce uncomment .comment (cs.dropWhile (· != '\n')) := by
  induction cs with
  | nil => rfl
  | cons c rest ih =>
    -- the run stops dropping at the line feed, and is inside the comment until there
    by_cases hc : c = '\n'
    · rw [List.dropWhile_cons_of_neg (by simp [hc])]
    · rw [List.dropWhile_cons_of_pos (by simpa using hc), ← ih]
      simp only [transduce, uncomment, if_neg hc]
      rfl

/-! ## §4. Stretches of text. -/

/-- A stretch of text that ends outside of comments and literals, and at the
end of a logical line or inside one that goes on. -/
structure Closed (target : Target) (cs : List Char) : Prop where
  whole : ∀ rest, logical target (cs ++ rest) = logical target cs ++ logical target rest
  code : (transduce uncomment .code (logical target cs)).1 = .code

theorem Closed.nil (target : Target) : Closed target [] := by
  cases target <;> exact ⟨fun _ => rfl, rfl⟩

theorem Closed.append {target : Target} {xs ys : List Char} (hx : Closed target xs)
    (hy : Closed target ys) : Closed target (xs ++ ys) where
  whole rest := by
    rw [List.append_assoc, hx.whole, hx.whole, hy.whole, List.append_assoc]
  code := by
    rw [hx.whole, transduce_append, hx.code]
    exact hy.code

/-- After a closed stretch of text, reading starts afresh. -/
theorem program_append {target : Target} {cs : List Char} (h : Closed target cs)
    (rest : List Char) : program target (cs ++ rest) = program target cs ++ program target rest := by
  unfold program uncommented
  rw [h.whole, transduce_append, h.code]
  simp [Place.pending]

/-- A piece of a line that is kept as it is. -/
structure Kept (cs : List Char) : Prop where
  unbroken : '\n' ∉ cs
  ends : cs.getLast? ≠ some '\\'
  code : transduce uncomment .code cs = (.code, cs)

theorem Kept.nil : Kept [] := ⟨List.not_mem_nil, by decide, rfl⟩

theorem Kept.append {xs ys : List Char} (hx : Kept xs) (hy : Kept ys) : Kept (xs ++ ys) where
  unbroken hm := (List.mem_append.1 hm).elim hx.unbroken hy.unbroken
  ends := by
    rw [List.getLast?_append]
    -- if nothing follows, the end is that of the first piece
    have hends := hy.ends
    cases hl : ys.getLast? with
    | none => exact hx.ends
    | some c => rwa [hl] at hends
  code := transduce_append_of_eq hx.code hy.code

/-- A character that neither ends a line nor begins something else. -/
def isPlain (c : Char) : Bool := c != '\n' && c != '/' && c != '"' && c != '\\'

theorem Kept.of_plain {cs : List Char} (h : cs.all isPlain = true) : Kept cs := by
  simp only [List.all_eq_true, isPlain, Bool.and_eq_true, bne_iff_ne, ne_eq] at h
  refine ⟨fun hm => (h _ hm).1.1.1 rfl, fun hl => (h _ (List.mem_of_getLast? hl)).2 rfl, ?_⟩
  induction cs with
  | nil => rfl
  | cons c rest ih =>
    obtain ⟨hc, hrest⟩ := List.forall_mem_cons.1 h
    simp only [transduce, uncomment, if_neg hc.1.1.2, if_neg hc.1.2, ih hrest]
    rfl

/-- A line without a comment. -/
theorem Kept.line {target : Target} {cs : List Char} (h : Kept cs) :
    Closed target (cs ++ ['\n']) ∧ program target (cs ++ ['\n']) = cs ++ ['\n'] := by
  have hfeed : transduce uncomment .code ['\n'] = (.code, ['\n']) := rfl
  have hlogical : logical target (cs ++ ['\n']) = cs ++ ['\n'] := by
    rw [logical_append h.ends, logical_eq_self h.unbroken]
    cases target <;> rfl
  have hrun := transduce_append_of_eq h.code hfeed
  refine ⟨⟨logical_append (getLast?_line cs), by rw [hlogical, hrun]⟩, ?_⟩
  unfold program uncommented
  rw [hlogical, hrun]
  simp [Place.pending]

/-- A line that ends in a comment, and what is kept of it. -/
theorem Kept.comment {target : Target} {front text : List Char} (hf : Kept front)
    (ht : OneLine target text) :
    Closed target (front ++ '/' :: '/' :: text ++ ['\n'])
      ∧ program target (front ++ '/' :: '/' :: text ++ ['\n']) = front ++ ['\n'] := by
  -- only the text of the comment can change where the line ends
  have hlogical : logical target (front ++ '/' :: '/' :: text ++ ['\n'])
      = front ++ ['/', '/'] ++ logical target (text ++ ['\n']) := by
    rw [show front ++ '/' :: '/' :: text ++ ['\n'] = front ++ (['/', '/'] ++ (text ++ ['\n'])) by simp,
      logical_append hf.ends, logical_eq_self hf.unbroken, logical_append (by decide),
      logical_eq_self (show '\n' ∉ ['/', '/'] by decide), List.append_assoc]
  -- up to the slashes everything is kept
  have hslashes : transduce uncomment .code (front ++ ['/', '/']) = (.comment, front) := by
    have htwo : transduce uncomment .code ['/', '/'] = (.comment, []) := rfl
    have h := transduce_append_of_eq hf.code htwo
    rwa [List.append_nil] at h
  -- after them nothing but the line feed is
  have htext : transduce uncomment .comment (logical target (text ++ ['\n'])) = (.code, ['\n']) := by
    rw [transduce_comment, ht]
    rfl
  have hrun := transduce_append_of_eq hslashes htext
  rw [← hlogical] at hrun
  refine ⟨⟨logical_append (getLast?_line _), by rw [hrun]⟩, ?_⟩
  unfold program uncommented
  rw [hrun]
  simp [Place.pending]

end AssetEmbed.Reading
