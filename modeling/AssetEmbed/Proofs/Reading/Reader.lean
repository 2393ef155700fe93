/-
  AssetEmbed.Proofs.Reading.Reader — reading tokens in sequence.

  A reader takes tokens from the front of a list and returns what it read.
  That a reader accepts given tokens says what it returns for them, whatever
  stands after them; that it refuses them says that it takes nothing at all.

  Main results:
    * `Accepts.bind`      — readers in sequence accept tokens in sequence.
    * `Accepts.many_bind` — a repeated reader takes all that it accepts, and
      stops at what it refuses.
-/
import AssetEmbed.Proofs.Reading.Line

namespace AssetEmbed.Reading

/-! ## §1. Readers. -/

/-- Takes tokens from the front of a list. -/
abbrev Reader (α : Type) := StateT (List Token) Option α

/-- The tokens after expected ones. -/
def strip : List Token → List Token → Option (List Token)
  | [], ts => some ts
  | e :: es, t :: ts => if e = t then strip es ts else none
  | _ :: _, [] => none

/-- The tokens of a fixed text. -/
def expect (text : String) : Reader Unit := fun ts => (strip (phrase text) ts).map ((), ·)

/-- A word and what `value` makes of it. -/
def wordAs {α : Type} (value : List Char → Option α) : Reader α := fun
  | .word spelling :: ts => (value spelling).map (·, ts)
  | _ => none

/-- A literal and what `value` makes of its spelling. -/
def literalAs {α : Type} (value : List Char → Option α) : Reader α := fun
  | .literal spelling :: ts => (value spelling).map (·, ts)
  | _ => none

/-- A name. -/
def name : Reader String := wordAs (some ∘ String.ofList)

/-- The text that a literal stands for. -/
def textOf (target : Target) : Reader String :=
  literalAs fun spelling => (unescape target spelling).map String.ofList

/-- A byte with the comma after it. -/
def byte : Reader UInt8 := do
  let b ← wordAs byte?
  expect ","
  return b

/-- The end of the text. -/
def finish : Reader Unit := fun
  | .finish :: ts => some ((), ts)
  | _ => none

section
variable {α β : Type}

/-- As often as it goes; `fuel` bounds the number of times. -/
def manyUpTo (r : Reader α) : Nat → List Token → List α × List Token
  | 0, ts => ([], ts)
  | fuel + 1, ts =>
    match r ts with
    | none => ([], ts)
    | some (a, ts') => (a :: (manyUpTo r fuel ts').1, (manyUpTo r fuel ts').2)

/-- As often as it goes. -/
def many (r : Reader α) : Reader (List α) := fun ts => some (manyUpTo r ts.length ts)

/-- If it goes. -/
def optional (r : Reader α) : Reader (Option α) := fun ts =>
  match r ts with
  | none => some (none, ts)
  | some (a, ts') => some (some a, ts')

/-- The first if it goes, and otherwise the second. -/
def either (r r' : Reader α) : Reader α := fun ts => (r ts).or (r' ts)

/-- A number of times. -/
def times : Nat → Reader Unit → Reader Unit
  | 0, _ => pure ()
  | n + 1, r => do
    r
    times n r

/-- What a reader makes of all tokens. -/
def readAll (r : Reader α) (ts : List Token) : Option α :=
  match r ts with
  | some (a, []) => some a
  | _ => none

/-! ## §2. Accepting. -/

/-- Whether a reader takes just these tokens and returns `a`. -/
def Accepts (r : Reader α) (ts : List Token) (a : α) : Prop :=
  ∀ rest, r (ts ++ rest) = some (a, rest)

/-- Whether a reader takes nothing where these tokens come first. -/
def Refuses (r : Reader α) (ts : List Token) : Prop := ∀ rest, r (ts ++ rest) = none

theorem readAll_of_accepts {r : Reader α} {ts : List Token} {a : α} (h : Accepts r ts a) :
    readAll r ts = some a := by
  have hall := h []
  rw [List.append_nil] at hall
  unfold readAll
  rw [hall]

theorem Accepts.pure (a : α) : Accepts (pure a) [] a := fun _ => rfl

theorem bind_apply (r : Reader α) (f : α → Reader β) (ts : List Token) :
    (r >>= f) ts = (r ts).bind fun p => f p.1 p.2 := rfl

theorem Accepts.bind {r : Reader α} {f : α → Reader β} {ts us : List Token} {a : α} {b : β}
    (hr : Accepts r ts a) (hf : Accepts (f a) us b) : Accepts (r >>= f) (ts ++ us) b := by
  intro rest
  rw [List.append_assoc, bind_apply, hr]
  exact hf rest

/-- A reader at the end, and what is returned for it. -/
theorem Accepts.returning {r : Reader α} {ts : List Token} {a : α} (h : Accepts r ts a)
    (b : α → β) : Accepts (r >>= fun a => Pure.pure (b a)) ts (b a) := by
  have hall := h.bind (f := fun a => Pure.pure (b a)) (.pure (b a))
  rwa [List.append_nil] at hall

theorem strip_append (es rest : List Token) : strip es (es ++ rest) = some rest := by
  induction es with
  | nil => rfl
  | cons e es ih => simp [strip, ih]

theorem Accepts.expect (text : String) : Accepts (expect text) (phrase text) () := by
  intro rest
  show (strip (phrase text) (phrase text ++ rest)).map _ = _
  rw [strip_append]
  rfl

theorem Accepts.word {value : List Char → Option α} {spelling : List Char} {a : α}
    (h : value spelling = some a) : Accepts (wordAs value) [.word spelling] a := by
  intro rest
  show (value spelling).map _ = _
  rw [h]
  rfl

theorem Accepts.literal {value : List Char → Option α} {spelling : List Char} {a : α}
    (h : value spelling = some a) : Accepts (literalAs value) [.literal spelling] a := by
  intro rest
  show (value spelling).map _ = _
  rw [h]
  rfl

theorem accepts_name (text : String) : Accepts name [.word text.toList] text :=
  .word (by simp [String.ofList_toList])

theorem accepts_textOf (target : Target) (text : String) :
    Accepts (textOf target) [quoted target text] text :=
  .literal (by rw [unescape_escape, Option.map_some, String.ofList_toList])

theorem accepts_byte (b : UInt8) : Accepts byte (byteTokens b) b :=
  (Accepts.word (byte?_byteWord b)).bind <| (Accepts.expect ",").returning _

theorem accepts_finish : Accepts finish [.finish] () := fun _ => rfl

/-! ## §3. Refusing. -/

theorem Refuses.append {r : Reader α} {ts : List Token} (h : Refuses r ts) (us : List Token) :
    Refuses r (ts ++ us) := by
  intro rest
  rw [List.append_assoc]
  exact h (us ++ rest)

/-- A reader that refuses what may come first refuses all of it. -/
theorem Refuses.flatMap_append {γ : Type} {r : Reader α} {xs : List γ} {f : γ → List Token}
    (h : ∀ x ∈ xs, Refuses r (f x)) {us : List Token} (hu : Refuses r us) :
    Refuses r (xs.flatMap f ++ us) := by
  -- only what comes first matters, and `us` does if nothing else is there
  cases xs with
  | nil => exact hu
  | cons x rest =>
    rw [List.flatMap_cons, List.append_assoc]
    exact (h x List.mem_cons_self).append _

theorem Refuses.bind {r : Reader α} {ts : List Token} (h : Refuses r ts) (f : α → Reader β) :
    Refuses (r >>= f) ts := by
  intro rest
  rw [bind_apply, h]
  rfl

/-- Whether two lists of tokens differ where both have a token. -/
def clash : List Token → List Token → Bool
  | e :: es, t :: ts => if e = t then clash es ts else true
  | _, _ => false

theorem strip_of_clash {es ts : List Token} (h : clash es ts = true) (rest : List Token) :
    strip es (ts ++ rest) = none := by
  fun_induction clash es ts with
  | case1 es t ts ih =>
    simp only [List.cons_append, strip, if_pos]
    exact ih h
  | case2 e es t ts hne => simp [strip, hne]
  | case3 => cases h

theorem clash_literal {cs : List Char} {ts : List Token} (h : clash (phraseOf cs) ts = true) :
    clash (phrase (String.ofList cs)) ts = true := by
  rwa [phrase_ofList]

theorem clash_literals {cs ds : List Char} (h : clash (phraseOf cs) (phraseOf ds) = true) :
    clash (phrase (String.ofList cs)) (phrase (String.ofList ds)) = true := by
  rwa [phrase_ofList, phrase_ofList]

theorem clash_append {es ts : List Token} (h : clash es ts = true) (more others : List Token) :
    clash (es ++ more) (ts ++ others) = true := by
  fun_induction clash es ts with
  | case1 es t ts ih =>
    simp only [List.cons_append, clash, if_pos]
    exact ih h
  | case2 e es t ts hne => simp [clash, hne]
  | case3 => cases h

/-- Whether a line begins with these tokens. -/
def Begins (text : String) (start : List Token) : Prop := ∃ more, phrase text = start ++ more

/-- What differs from the beginning of a line differs from the line. -/
theorem Begins.clash_left {text : String} {start ts : List Token} (hb : Begins text start)
    (h : clash start ts = true) : clash (phrase text) ts = true := by
  obtain ⟨more, hmore⟩ := hb
  have hall := clash_append h more []
  rwa [List.append_nil, ← hmore] at hall

theorem Begins.clash_right {text : String} {start es : List Token} (hb : Begins text start)
    (h : clash es start = true) : clash es (phrase text) = true := by
  obtain ⟨more, hmore⟩ := hb
  have hall := clash_append h [] more
  rwa [List.append_nil, ← hmore] at hall

theorem Refuses.expect {text : String} {ts : List Token} (h : clash (phrase text) ts = true) :
    Refuses (expect text) ts := by
  intro rest
  show (strip (phrase text) (ts ++ rest)).map _ = _
  rw [strip_of_clash h]
  rfl

/-! ## §4. Repetition and choice. -/

theorem manyUpTo_eq {γ : Type} {r : Reader α} {xs : List γ} {f : γ → List Token} {g : γ → α}
    (ha : ∀ x ∈ xs, Accepts r (f x) (g x)) {us : List Token} (hr : r us = none) {fuel : Nat}
    (hfuel : xs.length ≤ fuel) :
    manyUpTo r fuel (xs.flatMap f ++ us) = (xs.map g, us) := by
  -- the induction is on what is read; each element uses up one unit of fuel
  induction xs generalizing fuel with
  | nil =>
    cases fuel with
    | zero => rfl
    | succ fuel =>
      show manyUpTo r (fuel + 1) us = _
      unfold manyUpTo
      rw [hr]
      rfl
  | cons x rest ih =>
    obtain ⟨hx, hrest⟩ := List.forall_mem_cons.1 ha
    cases fuel with
    | zero => exact absurd hfuel (by simp)
    | succ fuel =>
      rw [List.flatMap_cons, List.append_assoc]
      unfold manyUpTo
      rw [hx]
      -- the element that was read leaves fuel for the others
      have hlength : rest.length ≤ fuel := by simpa using hfuel
      have hlater := ih hrest hlength
      simp only [hlater, List.map_cons]

theorem length_le_length_flatMap {γ : Type} {xs : List γ} {f : γ → List Token}
    (h : ∀ x ∈ xs, f x ≠ []) : xs.length ≤ (xs.flatMap f).length := by
  induction xs with
  | nil => simp
  | cons x rest ih =>
    obtain ⟨hx, hrest⟩ := List.forall_mem_cons.1 h
    have hpos := List.length_pos_iff.2 hx
    have := ih hrest
    simp only [List.length_cons, List.flatMap_cons, List.length_append]
    omega

/-- A repeated reader takes what it accepts, up to what it refuses. -/
theorem Accepts.many_bind {γ : Type} {r : Reader α} {k : List α → Reader β} {xs : List γ}
    {f : γ → List Token} {g : γ → α} (ha : ∀ x ∈ xs, Accepts r (f x) (g x))
    (hne : ∀ x ∈ xs, f x ≠ []) {us : List Token} (hr : Refuses r us) {b : β}
    (hk : Accepts (k (xs.map g)) us b) : Accepts (many r >>= k) (xs.flatMap f ++ us) b := by
  intro rest
  -- every element takes a token, so the tokens bound how many there are
  have hfuel : xs.length ≤ (xs.flatMap f ++ us ++ rest).length := by
    have := length_le_length_flatMap hne
    simp only [List.length_append]
    omega
  -- the repetition stops at `us`, whatever stands after it
  have hmany : many r (xs.flatMap f ++ us ++ rest) = some (xs.map g, us ++ rest) := by
    unfold many
    rw [List.append_assoc] at hfuel ⊢
    rw [manyUpTo_eq ha (hr rest) hfuel]
  rw [bind_apply, hmany]
  exact hk rest

/-- A repeated reader takes back what the tokens were made for. -/
theorem Accepts.many_self {r : Reader α} {k : List α → Reader β} {xs : List α}
    {f : α → List Token} (ha : ∀ x ∈ xs, Accepts r (f x) x) (hne : ∀ x ∈ xs, f x ≠ [])
    {us : List Token} (hr : Refuses r us) {b : β} (hk : Accepts (k xs) us b) :
    Accepts (many r >>= k) (xs.flatMap f ++ us) b := by
  have hmap : xs.map (fun x => x) = xs := List.map_id xs
  exact .many_bind ha hne hr (by rwa [hmap])

theorem Accepts.optional_some {r : Reader α} {ts : List Token} {a : α} (h : Accepts r ts a) :
    Accepts (optional r) ts (some a) := by
  intro rest
  unfold optional
  rw [h]

/-- An optional reader takes nothing where it refuses. -/
theorem Accepts.optional_none {r : Reader α} {k : Option α → Reader β} {us : List Token} {b : β}
    (hr : Refuses r us) (hk : Accepts (k none) us b) : Accepts (optional r >>= k) us b := by
  intro rest
  have hnone : optional r (us ++ rest) = some (none, us ++ rest) := by
    unfold optional
    rw [hr]
  rw [bind_apply, hnone]
  exact hk rest

theorem Accepts.either_left {r : Reader α} {ts : List Token} {a : α} (h : Accepts r ts a)
    (r' : Reader α) : Accepts (either r r') ts a := by
  intro rest
  unfold either
  rw [h]
  rfl

theorem Accepts.either_right {r r' : Reader α} {ts : List Token} {a : α} (hr : Refuses r ts)
    (h : Accepts r' ts a) : Accepts (either r r') ts a := by
  intro rest
  unfold either
  rw [hr, h]
  rfl

theorem Refuses.either {r r' : Reader α} {ts : List Token} (h : Refuses r ts)
    (h' : Refuses r' ts) : Refuses (either r r') ts := by
  intro rest
  unfold Reading.either
  rw [h, h']
  rfl

theorem Accepts.times {γ : Type} {r : Reader Unit} {ts : List Token} (h : Accepts r ts ())
    (xs : List γ) : Accepts (times xs.length r) (xs.flatMap fun _ => ts) () := by
  induction xs with
  | nil => exact .pure ()
  | cons x rest ih => exact h.bind ih

end

end AssetEmbed.Reading
