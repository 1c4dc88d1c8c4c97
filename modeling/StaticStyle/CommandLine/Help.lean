import StaticStyle.CommandLine.Request

namespace StaticStyle.CommandLine

def versionLine : Text := "stylezx, version 0.1.0"

/-- A line for each option and what it does, the second column in line. -/
def optionLines (options : List (String × String)) : Text :=
  let width := (options.map fun option => option.1.length).foldl max 0
  let line (option : String × String) : Text :=
    let gap := List.replicate (width - option.1.length + 2) (CodePoint.char ' ')
    "  " ++ Text.ofString option.1 ++ gap ++ Text.ofString option.2
  Text.join "\n" (options.map line)

/-- How a command is called, what it does, and its options. -/
def helpText (usage purpose : String) (options : List (String × String)) : Text :=
  "Usage: stylezx " ++ Text.ofString usage ++ "\n\n  " ++ Text.ofString purpose ++
    "\n\nOptions:\n" ++ optionLines (options ++ [("--help", "Show this message and exit.")])

def configOption : String × String := ("--config FILE", "TOML file with a [tool.stylezx] table.")

def Command.help : Command → Text
  | build => helpText "build [OPTIONS] SRC OUT" "Transform every source file under SRC into OUT."
      [("--theme FILE", "JSON theme whose variables are emitted into the stylesheet."),
        ("--asset TEXT", "File name of the generated stylesheet inside OUT."), configOption]
  | check => helpText "check [OPTIONS] SRC"
      "Compile every style declaration under SRC without writing anything." [configOption]
  | inspect => helpText "inspect [OPTIONS] FILE"
      "Compile one source file and display each generated class and its CSS."
      [configOption, ("--code", "Also print the rewritten source.")]
  | theme => helpText "theme [OPTIONS] THEME_FILE"
      "Flatten THEME_FILE into CSS custom properties."
      [("--selector TEXT", "Selector for the global block."),
        ("--prefix TEXT", "Custom property prefix."),
        ("--override FILE", "JSON overrides to derive a scoped theme from."),
        ("--scope TEXT", "Selector for the scoped block when --override is given.")]

def commonHelp : Text :=
  helpText "[OPTIONS] COMMAND [ARGS]..."
    "stylezx - compile static zx style objects into deduplicated CSS."
    [("--version", "Show the version and exit."), ("-v, --verbose", "Log every transformed file.")]
    ++ "\n\nCommands:\n" ++ optionLines
      [("build", "Compile a source tree and emit the pruned stylesheet."),
        ("check", "Report unsupported style declarations."),
        ("inspect", "Show the classes compiled from one file."),
        ("theme", "Print the CSS variables of a theme file.")]

def helpFor : Option Command → Text
  | some command => command.help
  | none => commonHelp

end StaticStyle.CommandLine
