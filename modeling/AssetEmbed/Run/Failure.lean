/-
  AssetEmbed.Run.Failure — why a run fails.
-/
import AssetEmbed.Bundle.Error
import AssetEmbed.Settings.Diagnostic

namespace AssetEmbed

/-- The causes of a failing run. -/
inductive Cause where
  /-- A configuration file was named and is not there. -/
  | configNotFound (name : Path)
  | configUnreadable (path : Path) (cause : FileError)
  | configMalformed
  | configInvalid (problems : List Diagnostic)
  | bundle (error : BundleError)
deriving DecidableEq, Repr

/-- A cause with what was being done when it came up, outermost first. -/
structure Failure where
  contexts : List String
  cause : Cause
deriving DecidableEq, Repr

/-- The messages of a cause and of what lies behind it, outermost first. -/
def Cause.chain (color : Bool) : Cause → List String
  | .configNotFound name => ["Config file '" ++ name.display ++ "' not found"]
  | .configUnreadable path cause =>
    ["IO error when reading `" ++ path.display ++ "`", cause.message]
  | .configMalformed => ["Config file parsing error"]
  | .configInvalid problems => [Diagnostic.displayAll color problems]
  | .bundle error => error.chain

namespace Failure

def ofCause (cause : Cause) : Failure := ⟨[], cause⟩

/-- The failure with one more thing that was being done. -/
def within (context : String) (f : Failure) : Failure :=
  { f with contexts := context :: f.contexts }

/-- All messages of a failure, outermost first. -/
def chain (color : Bool) (f : Failure) : List String := f.contexts ++ f.cause.chain color

section
variable {m : Type → Type} [Monad m] {α : Type}

/-- Takes the outcome of a step that asks nothing of the host. -/
def ofExcept : Except Cause α → ExceptT Failure m α
  | .ok a => pure a
  | .error cause => throw (.ofCause cause)

/-- Takes the outcome of a step in the making of a bundle. -/
def ofBundle (x : Except BundleError α) : ExceptT Failure m α := ofExcept (x.mapError .bundle)

/-- Says on failure what was being done. -/
def during (context : String) (x : ExceptT Failure m α) : ExceptT Failure m α :=
  x.adapt (·.within context)

end

/-! ## The report at the end of a run -/

/-- A text whose later lines are indented by `width`. -/
def hang (width : Nat) (text : String) : String :=
  let margin := String.ofList (List.replicate width ' ')
  String.ofList (text.toList.flatMap fun c => if c = '\n' then '\n' :: margin.toList else [c])

/-- The number of a cause, set to the right. -/
def causeNumber (n : Nat) : String :=
  let digits := toString n
  String.ofList (List.replicate (5 - digits.length) ' ') ++ digits ++ ": "

/-- Causes, each under its number. -/
def numbered : Nat → List String → List String
  | _, [] => []
  | n, text :: rest => (causeNumber n ++ hang 7 text) :: numbered (n + 1) rest

/-- The lines under which the causes of an error are shown; a single cause has
no number. -/
def causeLines : List String → List String
  | [] => []
  | [text] => ["", "Caused by:", "    " ++ hang 4 text]
  | texts => "" :: "Caused by:" :: numbered 0 texts

/-- How a failing run ends. -/
def report (color : Bool) (f : Failure) : String :=
  match f.chain color with
  | [] => ""
  | text :: causes => String.intercalate "\n" (("Error: " ++ text) :: causeLines causes) ++ "\n"

end Failure

end AssetEmbed
