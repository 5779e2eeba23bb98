import LanguageService.Language.Catalog

/-!
# The manual

Short markdown texts about words of the language, shown when the cursor rests on one.

* `manualPages`          the words and the lines of their texts
* `manualPage? word`     the text on a word
-/

namespace LanguageService

def manualPages : List (String × List String) :=
  [("print",
    ["**print(value)** - Prints a value to the console", "", "```vint",
      "print(\"Hello, World!\")", "```"]),
   ("println",
    ["**println(value)** - Prints a value to the console with a newline", "", "```vint",
      "println(\"Hello, World!\")", "```"]),
   ("func",
    ["**func** - Defines a function", "", "```vint", "let myFunction = func(param1, param2) \x7b",
      "    return param1 + param2", "\x7d", "```"]),
   ("let",
    ["**let** - Declares a variable", "", "```vint", "let myVariable = \"Hello\"",
      "let myNumber = 42", "```"]),
   ("if",
    ["**if** - Conditional statement", "", "```vint", "if (condition) \x7b", "    // code",
      "\x7d else \x7b", "    // alternative code", "\x7d", "```"]),
   ("for",
    ["**for** - Loop statement", "", "```vint", "for item in collection \x7b", "    print(item)",
      "\x7d", "```"]),
   ("while",
    ["**while** - Loop statement", "", "```vint", "while (condition) \x7b", "    // code", "\x7d",
      "```"]),
   ("import",
    ["**import** - Imports a module", "", "```vint", "import time", "import net", "```"]),
   ("type",
    ["**type(value)** - Returns the type of a value", "", "```vint",
      "let t = type(42)  // \"INTEGER\"", "```"]),
   ("convert",
    ["**convert(value, type)** - Converts a value to the specified type", "", "```vint",
      "let str = \"123\"", "convert(str, \"INTEGER\")", "```"]),
   ("time",
    ["**time** - Module for time-related operations", "", "Functions:",
      "- `now()` - Get current timestamp", "- `format(time, layout)` - Format time",
      "- `add(time, duration)` - Add duration to time",
      "- `subtract(time, duration)` - Subtract duration from time",
      "- `isLeapYear(year)` - Check if year is leap year"]),
   ("net",
    ["**net** - Module for network operations", "", "Functions:",
      "- `get(url)` - HTTP GET request", "- `post(url, data)` - HTTP POST request",
      "- `put(url, data)` - HTTP PUT request", "- `delete(url)` - HTTP DELETE request"]),
   ("json",
    ["**json** - Module for JSON operations", "", "Functions:",
      "- `parse(text)` - Parse a JSON string", "- `stringify(value)` - Serialize a value to JSON"]),
   ("defer",
    ["**defer** - Defers execution until function returns", "", "```vint",
      "let myFunc = func() \x7b", "    defer println(\"This runs last\")",
      "    println(\"This runs first\")", "\x7d", "```"])]

def manualPage? (word : String) : Option String :=
  (manualPages.lookup word).map fun lines => "\n".intercalate lines

end LanguageService
