import LanguageService.Command.Arguments
import LanguageService.Command.Report
import LanguageService.Editor.Layout
import LanguageService.Server.Answer

/-!
# Running a command

A command is a function of the contents of the file it names; what it writes to the file comes
back as part of its outcome.

* `ReadFault`          why a file has no text
* `Command.file?`      the file that a command reads
* `Command.run`        the outcome of a command
* `runArguments`       the outcome of some arguments, given what each file holds
-/

namespace LanguageService

/-- Why a file has no text. -/
inductive ReadFault where
  | notFound
  | isDirectory
  | notDirectory
  | notText
  | other (message : String)
deriving DecidableEq, Repr

def ReadFault.message : ReadFault → String
  | notFound => "No such file or directory (os error 2)"
  | isDirectory => "Is a directory (os error 21)"
  | notDirectory => "Not a directory (os error 20)"
  | notText => "stream did not contain valid UTF-8"
  | other message => message

/-- What a command leaves behind: its exit status, its output, and the new text of its file. -/
structure CommandOutcome where
  code : Nat
  stdout : String
  stderr : String
  written : Option String
deriving DecidableEq, Repr

namespace CommandOutcome

/-- success with some output -/
def printed (out : String) : CommandOutcome := ⟨0, out, "", none⟩

/-- an error without a cause -/
def failed (out context : String) : CommandOutcome := ⟨1, out, "Error: " ++ context ++ "\n", none⟩

/-- an error and its cause -/
def failedBy (context cause : String) : CommandOutcome :=
  ⟨1, "", "Error: " ++ context ++ "\n\nCaused by:\n    " ++ cause ++ "\n", none⟩

end CommandOutcome

def usage : String :=
  "Usage: vint [--log-level <LEVEL>] [lsp | check <FILE> | format [-w] <FILE> | version]\n"

def UsageFault.message : UsageFault → String
  | unknown a => "error: unexpected argument '" ++ a ++ "' found\n\n"
  | repeated a => "error: the argument '" ++ a ++ "' cannot be used multiple times\n\n"
  | missing a => "error: a value is required for '" ++ a ++ "'\n\n"

/-- lines of output -/
def printLines (lines : List String) : String :=
  String.join (lines.map fun l => l ++ "\n")

/-- the report on a text; errors make the command fail -/
def checkText (path : String) (text : Line) : CommandOutcome :=
  let ds := (Analysis.of text).diagnostics
  let out := printLines (ds.map (Diagnostic.render path))
  if errorCount ds = 0 then .printed out
  else .failed out (toString (errorCount ds) ++ " error(s) in " ++ path)

/-- a text laid out, either printed or put in the place of the text if that differs -/
def formatFile (write : Bool) (text : Line) : CommandOutcome :=
  let laidOut := formatText text
  if write then ⟨0, "", "", if laidOut = text then none else some (String.ofList laidOut)⟩
  else .printed (String.ofList laidOut ++ "\n")

namespace Command

/-- the file that a command reads -/
def file? : Command → Option String
  | check path | format path _ => some path
  | _ => none

def versionText : String := "vint " ++ LanguageService.version ++ "\n"

/-- the outcome of a command, given the contents of a file -/
def run (contents : String → Except ReadFault String) : Command → CommandOutcome
  | serve => .printed ""
  | check path =>
    match contents path with
    | .ok s => checkText path s.toList
    | .error f => .failedBy ("Failed to read " ++ path) f.message
  | format path write =>
    match contents path with
    | .ok s => formatFile write s.toList
    | .error f => .failedBy ("Failed to read " ++ path) f.message
  | version => .printed (versionText ++ "\nPart of the VintLang tooling\n")
  | versionLine => .printed versionText
  | help => .printed usage

end Command

/-- the outcome of some arguments -/
def runArguments (contents : String → Except ReadFault String) (arguments : List String) :
    CommandOutcome :=
  match Command.parse arguments with
  | .ok c => c.run contents
  | .error f => ⟨2, "", f.message ++ usage, none⟩

end LanguageService
