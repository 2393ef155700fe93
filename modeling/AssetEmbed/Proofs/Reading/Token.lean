/-
  AssetEmbed.Proofs.Reading.Token — words, literals and marks.

  A program text without comments is a sequence of tokens with blanks between
  them.  A string literal is a token with the text between its quotes as it
  is spelled; what the spelling stands for depends on the target.

  Main results:
    * `Spells.append`  — stretches of text next to each other.
    * `Spells.word`    — a word ends where something else begins.
    * `Spells.literal` — a quoted text is one literal.
-/
import AssetEmbed.Identifier
import AssetEmbed.Proofs.Reading.Comment

namespace AssetEmbed.Reading

/-! ## §1. Tokens. -/

inductive Token where
  /-- Letters, digits and underscores. -/
  | word (spelling : List Char)
  /-- A string literal, as it is spelled between its quotes. -/
  | literal (spelling : List Char)
  /-- Any other character. -/
  | mark (c : Char)
  /-- The end of the text. -/
  | finish
deriving DecidableEq, Repr

/-- A token that has begun. -/
inductive Begun where
  | nothing
  | word (spelling : List Char)
  | literal (spelling : List Char)
  /-- A literal after a backslash. -/
  | escape (spelling : List Char)
deriving DecidableEq, Repr

def isBlank (c : Char) : Bool := c == ' ' || c == '\n' || c == '\t' || c == '\r'

/-- What a character begins. -/
def begin (c : Char) : Begun × List Token :=
  if Identifier.isPart c then (.word [c], [])
  else if c = '"' then (.literal [], [])
  else if isBlank c then (.nothing, [])
  else (.nothing, [.mark c])

/-- What a character does to a token that has begun. -/
def tokenize : Begun → Char → Begun × List Token
  | .nothing, c => begin c
  | .word spelling, c =>
    if Identifier.isPart c then (.word (spelling ++ [c]), [])
    else ((begin c).1, .word spelling :: (begin c).2)
  | .literal spelling, c =>
    if c = '"' then (.nothing, [.literal spelling])
    else if c = '\\' then (.escape spelling, [])
    else (.literal (spelling ++ [c]), [])
  | .escape spelling, c => (.literal (spelling ++ ['\\', c]), [])

/-- The tokens of a text, and its end; nothing if it ends inside a literal or a word. -/
def tokens? (cs : List Char) : Option (List Token) :=
  match transduce tokenize .nothing cs with
  | (.nothing, ts) => some (ts ++ [.finish])
  | _ => none

/-- Whether a text consists of whole tokens. -/
def Spells (cs : List Char) (ts : List Token) : Prop :=
  transduce tokenize .nothing cs = (.nothing, ts)

/-- The tokens of a line of characters. -/
def phraseOf (cs : List Char) : List Token := (transduce tokenize .nothing (cs ++ ['\n'])).2

/-- The tokens of a line. -/
def phrase (text : String) : List Token :=
  (transduce tokenize .nothing (text.toList ++ ['\n'])).2

/-- A literal text is given by its characters, so its tokens need no decoding. -/
theorem phrase_ofList (cs : List Char) : phrase (String.ofList cs) = phraseOf cs := by
  unfold phrase phraseOf
  rw [String.toList_ofList]

/-! ## §2. Spelling. -/

theorem Spells.nil : Spells [] [] := rfl

theorem Spells.tokens?_eq {cs : List Char} {ts : List Token} (h : Spells cs ts) :
    tokens? cs = some (ts ++ [.finish]) := by
  unfold Spells at h
  unfold tokens?
  rw [h]

theorem Spells.append {xs ys : List Char} {ts us : List Token} (hx : Spells xs ts)
    (hy : Spells ys us) : Spells (xs ++ ys) (ts ++ us) :=
  transduce_append_of_eq hx hy

/-- A fixed text that ends between tokens. -/
theorem Spells.fixed {text : String}
    (h : (transduce tokenize .nothing text.toList).1 = .nothing) :
    Spells text.toList (phrase text) := by
  have hfeed : transduce tokenize .nothing ['\n'] = (.nothing, []) := rfl
  refine Prod.ext h ?_
  unfold phrase
  rw [transduce_append, h, hfeed, List.append_nil]

/-- A fixed text at the end of a line. -/
theorem Spells.line {text : String}
    (h : (transduce tokenize .nothing (text.toList ++ ['\n'])).1 = .nothing) :
    Spells (text.toList ++ ['\n']) (phrase text) :=
  Prod.ext h rfl

/-- A line that consists of whole tokens holds just those of its phrase. -/
theorem Spells.eq_phrase {text : String} {ts : List Token}
    (h : Spells (text.toList ++ ['\n']) ts) : ts = phrase text :=
  (congrArg Prod.snd h).symm

/-- A text of characters that words are made of. -/
def IsWord (cs : List Char) : Prop := cs ≠ [] ∧ cs.all Identifier.isPart = true

theorem transduce_word {cs : List Char} (h : cs.all Identifier.isPart = true)
    (spelling : List Char) :
    transduce tokenize (.word spelling) cs = (.word (spelling ++ cs), []) := by
  induction cs generalizing spelling with
  | nil => simp [transduce]
  | cons c rest ih =>
    simp only [List.all_cons, Bool.and_eq_true] at h
    simp only [transduce, tokenize, if_pos h.1, ih h.2, List.append_assoc]
    rfl

theorem IsWord.transduce_eq {cs : List Char} (h : IsWord cs) :
    transduce tokenize .nothing cs = (.word cs, []) := by
  obtain ⟨hne, hall⟩ := h
  cases cs with
  | nil => exact absurd rfl hne
  | cons c rest =>
    simp only [List.all_cons, Bool.and_eq_true] at hall
    simp only [transduce, tokenize, begin, if_pos hall.1, transduce_word hall.2]
    rfl

/-- A word with something after it that is not part of it. -/
theorem Spells.word {cs : List Char} (h : IsWord cs) {c : Char} {rest : List Char}
    {ts : List Token} (hc : Identifier.isPart c = false) (hr : Spells (c :: rest) ts) :
    Spells (cs ++ c :: rest) (.word cs :: ts) := by
  unfold Spells at hr ⊢
  simp only [transduce, tokenize, Prod.mk.injEq] at hr
  -- the character after the word hands the word out
  rw [transduce_append, h.transduce_eq]
  simp [transduce, tokenize, hc, hr.1, hr.2]

theorem IsWord.all_isPlain {cs : List Char} (h : IsWord cs) : cs.all isPlain = true := by
  refine List.all_eq_true.2 fun c hc => ?_
  have hpart := List.all_eq_true.1 h.2 c hc
  -- the four characters that are not plain are no part of a word
  have hapart : ∀ d ∈ ['\n', '/', '"', '\\'], c ≠ d := by
    intro d hd heq
    rw [heq] at hpart
    simp only [List.mem_cons, List.not_mem_nil, or_false] at hd
    rcases hd with rfl | rfl | rfl | rfl <;> revert hpart <;> decide
  simpa [isPlain, and_assoc] using hapart

theorem IsWord.kept {cs : List Char} (h : IsWord cs) : Kept cs := .of_plain h.all_isPlain

theorem isWord_of_isIdentifier {cs : List Char} (h : Identifier.isIdentifier cs = true) :
    IsWord cs := by
  cases cs with
  | nil => cases h
  | cons c rest =>
    simp only [Identifier.isIdentifier, Bool.and_eq_true] at h
    refine ⟨List.cons_ne_nil c rest, ?_⟩
    -- what may start an identifier may also stand in it
    have hc : Identifier.isPart c = true := by
      have hs := h.1
      simp only [Identifier.isStart, Identifier.isPart, Char.isAlphanum, Bool.or_eq_true] at hs ⊢
      exact hs.imp_left .inl
    simp only [List.all_cons, hc, h.2, Bool.and_self]

/-! ## §3. Literals. -/

/-- A text that stays inside a literal. -/
structure Quotable (inner : List Char) : Prop where
  unbroken : '\n' ∉ inner
  kept : transduce uncomment .literal inner = (.literal, inner)
  token : ∀ spelling,
    transduce tokenize (.literal spelling) inner = (.literal (spelling ++ inner), [])

theorem Quotable.nil : Quotable [] :=
  ⟨List.not_mem_nil, rfl, fun spelling => by simp [transduce]⟩

theorem Quotable.append {xs ys : List Char} (hx : Quotable xs) (hy : Quotable ys) :
    Quotable (xs ++ ys) where
  unbroken hm := (List.mem_append.1 hm).elim hx.unbroken hy.unbroken
  kept := transduce_append_of_eq hx.kept hy.kept
  token spelling := by
    rw [transduce_append_of_eq (hx.token spelling) (hy.token _), List.append_assoc]
    rfl

theorem Quotable.flatMap {α : Type} {f : α → List Char} (h : ∀ a, Quotable (f a))
    (xs : List α) : Quotable (xs.flatMap f) := by
  induction xs with
  | nil => exact .nil
  | cons a rest ih => exact (h a).append ih

/-- A character that ends neither a line nor a literal. -/
theorem Quotable.single {c : Char} (hn : c ≠ '\n') (hq : c ≠ '"') (hb : c ≠ '\\') :
    Quotable [c] where
  unbroken hm := hn (List.mem_singleton.1 hm).symm
  kept := by simp [transduce, uncomment, hq, hb]
  token spelling := by simp [transduce, tokenize, hq, hb]

/-- A character after a backslash. -/
theorem Quotable.escaped {c : Char} (hn : c ≠ '\n') : Quotable ['\\', c] where
  unbroken hm := by
    rcases List.mem_cons.1 hm with h | h
    · exact absurd h (by decide)
    · exact hn (List.mem_singleton.1 h).symm
  kept := by simp [transduce, uncomment]
  token spelling := by simp [transduce, tokenize]

theorem Quotable.literal_kept {inner : List Char} (h : Quotable inner) :
    Kept ('"' :: inner ++ ['"']) where
  unbroken hm := by
    rcases List.mem_append.1 hm with hm | hm
    · rcases List.mem_cons.1 hm with hm | hm
      · exact absurd hm (by decide)
      · exact h.unbroken hm
    · exact absurd hm (by decide)
  ends := by
    rw [List.getLast?_concat]
    decide
  code := by
    -- one quote into the literal, one out of it
    have hopen : transduce uncomment .code ['"'] = (.literal, ['"']) := rfl
    have hclose : transduce uncomment .literal ['"'] = (.code, ['"']) := rfl
    exact transduce_append_of_eq (transduce_append_of_eq hopen h.kept) hclose

theorem Spells.literal {inner : List Char} (h : Quotable inner) :
    Spells ('"' :: inner ++ ['"']) [.literal inner] := by
  have hopen : transduce tokenize .nothing ['"'] = (.literal [], []) := rfl
  have hclose : transduce tokenize (.literal inner) ['"'] = (.nothing, [.literal inner]) := rfl
  exact transduce_append_of_eq (transduce_append_of_eq hopen (h.token [])) hclose

end AssetEmbed.Reading
