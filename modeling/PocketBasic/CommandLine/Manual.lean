/-!
# What the command says about itself
-/

namespace PocketBasic
namespace CommandLine

/-- The answer to `--version`. -/
def versionText : String := "ttc, version 1.0.0"

/-- What is shown before an error in the arguments. -/
def usageText : String := "Usage: ttc [OPTIONS]\nTry 'ttc --help' for help.\n"

/-- The answer to `--help`, line by line. -/
def helpLines : List String :=
  ["Usage: ttc [OPTIONS]",
   "",
   "  Compile a Teeny Tiny program to C.",
   "",
   "  The generated C program declares one float per variable and can be built with",
   "  any C compiler.",
   "",
   "  Examples:",
   "      ttc -f hello.tt              # Outputs out.c",
   "      ttc -f hello.tt -o hello.c   # Specify output file",
   "      ttc -f hello.tt --tokens     # Dump tokens",
   "      ttc -v -f hello.tt           # Verbose output",
   "",
   "  Language summary:",
   "      PRINT expression | \"string\"",
   "      INPUT var",
   "      LET var = expression",
   "      IF a > b THEN ... ENDIF",
   "      WHILE a < b REPEAT ... ENDWHILE",
   "      LABEL name / GOTO name",
   "",
   "Options:",
   "  -f, --file FILE    Teeny Tiny source file (.tt) to compile  [required]",
   "  -o, --output FILE  Output C file (default: out.c)",
   "  --tokens           Print the token stream and exit (for debugging)",
   "  -v, --verbose      Verbose output",
   "  --version          Show the version and exit.",
   "  --help             Show this message and exit."]

/-- The answer to `--help`. -/
def helpText : String := String.intercalate "\n" helpLines

end CommandLine
end PocketBasic
