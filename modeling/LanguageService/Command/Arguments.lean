/-!
# Arguments of the command line

* `Command`           what is asked for
* `Command.parse`     the command that some arguments ask for, or why they ask for none
-/

namespace LanguageService

inductive Command where
  | serve
  | check (path : String)
  | format (path : String) (write : Bool)
  | version
  /-- the version alone -/
  | versionLine
  | help
deriving DecidableEq, Repr

/-- Why arguments are refused. -/
inductive UsageFault where
  | unknown (argument : String)
  | repeated (argument : String)
  | missing (argument : String)
deriving DecidableEq, Repr

namespace Command

/-- The names of the commands. -/
inductive Verb where
  | serve
  | check
  | format
  | version
deriving DecidableEq, Repr

def Verb.of? : String → Option Verb
  | "lsp" => some .serve
  | "check" => some .check
  | "format" => some .format
  | "version" => some .version
  | _ => none

/-- What has been read so far: the verb, the file, whether to write, and whether a filter for log
messages was given on either side of the verb. -/
structure Reading where
  verb : Option Verb := none
  file : Option String := none
  write : Bool := false
  filtered : Bool := false

/-- does the argument look like an option? -/
def isOption (a : String) : Bool :=
  match a.toList with
  | '-' :: _ :: _ => true
  | _ => false

/-- does the verb take a file? -/
def Verb.takesFile : Verb → Bool
  | check | format => true
  | serve | version => false

/-- an argument that is no option: the verb, and behind it the file -/
def Reading.plain (r : Reading) (a : String) : Except UsageFault Reading :=
  match r.verb with
  | none =>
    match Verb.of? a with
    | some v => .ok { r with verb := some v, filtered := false }
    | none => .error (.unknown a)
  | some v =>
    if v.takesFile && r.file.isNone then .ok { r with file := some a } else .error (.unknown a)

/-- the command that has been read -/
def Reading.finish (r : Reading) : Except UsageFault Command :=
  match r.verb, r.file with
  | none, _ | some .serve, _ => .ok .serve
  | some .version, _ => .ok .version
  | some .check, some f => .ok (.check f)
  | some .format, some f => .ok (.format f r.write)
  | some _, none => .error (.missing "<FILE>")

/-- arguments behind `--`, none of which is an option or a verb -/
def Reading.plains (r : Reading) : List String → Except UsageFault Command
  | [] => r.finish
  | a :: rest =>
    if r.verb.isNone then .error (.unknown a)
    else match r.plain a with
      | .ok r => r.plains rest
      | .error f => .error f

/-- the filter for log messages may be given once on either side of the verb -/
def Reading.filter (r : Reading) : Except UsageFault Reading :=
  if r.filtered then .error (.repeated "--log-level") else .ok { r with filtered := true }

def Reading.arguments (r : Reading) : List String → Except UsageFault Command
  | [] => r.finish
  | "--" :: rest => r.plains rest
  | "--log-level" :: rest =>
    match rest with
    | [] => .error (.missing "<LEVEL>")
    | value :: rest =>
      if isOption value then .error (.missing "<LEVEL>")
      else match r.filter with
        | .ok r => r.arguments rest
        | .error f => .error f
  | a :: rest =>
    if a = "-h" ∨ a = "--help" then .ok .help
    else if (a = "-V" ∨ a = "--version") ∧ r.verb = none then .ok .versionLine
    else if (a = "-w" ∨ a = "--write") ∧ r.verb = some .format then
      if r.write then .error (.repeated "--write")
      else Reading.arguments { r with write := true } rest
    else if "--log-level=".toList.isPrefixOf a.toList then
      match r.filter with
      | .ok r => r.arguments rest
      | .error f => .error f
    else if isOption a then .error (.unknown a)
    else match r.plain a with
      | .ok r => r.arguments rest
      | .error f => .error f

/-- Without arguments, the server is asked for. -/
def parse (arguments : List String) : Except UsageFault Command :=
  Reading.arguments {} arguments

end Command
end LanguageService
