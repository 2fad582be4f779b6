import SqlLayout.Text.Basic

/-!
# Help and version

The texts that the program shows about itself.  A line feed follows each of them when it is shown.

## Main definitions

* `helpText` : the arguments and options of the program.
* `versionText` : its name and version.
-/

namespace SqlLayout

/-- The lines of the help. -/
def helpLines : List String :=
  ["Reformat a SQL statement into a readable, indented layout",
    "",
    "Usage: format-sql [OPTIONS] [SQL]...",
    "",
    "Arguments:",
    "  [SQL]...  Statement to format; read from standard input when omitted",
    "",
    "Options:",
    "  -i, --indent <INDENT>  Spaces per indent level (overrides FORMAT_SQL_INDENT)",
    "      --tokens           Print the token stream instead of the formatted statement",
    "  -h, --help             Print help",
    "  -V, --version          Print version"]

/-- The help. -/
def helpText : Text := ['\n'].intercalate (helpLines.map String.toList)

/-- The name and the version of the program. -/
def versionText : Text := "format-sql 0.1.0".toList

end SqlLayout
