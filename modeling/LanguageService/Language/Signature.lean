import LanguageService.Language.Catalog

/-!
# Signatures of built-in functions

* `Signature`          a built-in function with the names of its parameters
* `Signature.label`    its written form, `name(a, b)`
* `signature? name`    the signature on record for a name
-/

namespace LanguageService

structure Signature where
  name : String
  parameters : List String
  description : String
deriving DecidableEq, Repr

/-- the written form of a signature -/
def Signature.label (s : Signature) : String :=
  s.name ++ "(" ++ ", ".intercalate s.parameters ++ ")"

/-- the signatures on record -/
def signatures : List Signature :=
  [⟨"print", ["value"], "Prints a value to the console."⟩,
   ⟨"println", ["value"], "Prints a value to the console with a newline."⟩,
   ⟨"write", ["value"], "Writes a value without a trailing newline."⟩,
   ⟨"type", ["value"], "Returns the type of a value."⟩,
   ⟨"convert", ["value", "type"], "Converts a value to the specified type."⟩,
   ⟨"has_key", ["map", "key"], "Reports whether a map contains a key."⟩,
   ⟨"len", ["value"], "Returns the length of a string, array or map."⟩,
   ⟨"range", ["start", "end", "step"], "Builds an array of integers from start up to end."⟩,
   ⟨"split", ["text", "separator"], "Splits a string into an array."⟩,
   ⟨"join", ["items", "separator"], "Joins an array of strings."⟩,
   ⟨"replace", ["text", "old", "new"], "Replaces every occurrence of a substring."⟩,
   ⟨"contains", ["text", "substring"], "Reports whether a string contains a substring."⟩,
   ⟨"startsWith", ["text", "prefix"], "Reports whether a string starts with a prefix."⟩,
   ⟨"endsWith", ["text", "suffix"], "Reports whether a string ends with a suffix."⟩,
   ⟨"push", ["array", "value"], "Appends a value to an array."⟩,
   ⟨"slice", ["array", "start", "end"], "Returns a portion of an array."⟩,
   ⟨"max", ["a", "b"], "Returns the larger of two numbers."⟩,
   ⟨"min", ["a", "b"], "Returns the smaller of two numbers."⟩,
   ⟨"pow", ["base", "exponent"], "Raises a number to a power."⟩,
   ⟨"sqrt", ["value"], "Returns the square root of a number."⟩,
   ⟨"format", ["time", "layout"], "Formats a time value."⟩,
   ⟨"add", ["time", "duration"], "Adds a duration to a time value."⟩,
   ⟨"subtract", ["time", "duration"], "Subtracts a duration from a time value."⟩,
   ⟨"isLeapYear", ["year"], "Reports whether a year is a leap year."⟩,
   ⟨"exec", ["command"], "Runs a shell command and returns its output."⟩,
   ⟨"env", ["name"], "Reads an environment variable."⟩,
   ⟨"exit", ["code"], "Terminates the program with an exit code."⟩]

def signature? (name : String) : Option Signature :=
  signatures.find? fun s => s.name == name

end LanguageService
