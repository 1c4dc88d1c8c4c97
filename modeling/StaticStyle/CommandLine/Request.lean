import StaticStyle.CommandLine.Arguments
import StaticStyle.File.Tree

namespace StaticStyle.CommandLine

open File (Entry Path Tree)

/-- The commands by name. -/
inductive Command where
  | build
  | check
  | inspect
  | theme
deriving DecidableEq, Repr

inductive Job where
  /-- Compiles the files below a directory into another one. -/
  | build (source target : Text) (theme : Option Text) (asset : Text) (config : Option Text)
  /-- Reports what a compilation would find. -/
  | check (source : Text) (config : Option Text)
  /-- Shows the styles of one file. -/
  | inspect (file : Text) (config : Option Text) (showsCode : Bool)
  /-- Shows the variables of a theme. -/
  | theme (file selector stem : Text) (override : Option Text) (scope : Text)
  | version
  /-- Shows what can be asked for, of one command or of all. -/
  | help (command : Option Command)
deriving DecidableEq, Repr

/-- What a path in an argument has to lead to. A sink is neither a file nor a directory, so no need
refuses it. -/
inductive Need where
  | file
  | directory
  | anything
  /-- A directory, or nothing. -/
  | noFile
deriving DecidableEq, Repr

def Need.isMet : Need → Option Entry → Bool
  | file, some entry => entry != .directory
  | directory, some entry => !entry.isFile
  | anything, some _ => true
  | noFile, some entry => !entry.isFile
  | noFile, none => true
  | _, none => false

structure Request where
  /-- The paths that are given, in the order in which they are looked at, with what each has to lead
  to. -/
  needs : List (Text × Need)
  /-- The job, unless operands are missing or too many. -/
  job? : Option Job
  /-- Whether notices are shown that are not warnings. -/
  isVerbose : Bool
deriving DecidableEq, Repr

namespace Command

def named? (name : Text) : Option Command :=
  match name.toString? with
  | some "build" => some build
  | some "check" => some check
  | some "inspect" => some inspect
  | some "theme" => some theme
  | _ => none

/-- The options with a value. -/
def valued : Command → List Text
  | build => ["--theme", "--asset", "--config"]
  | check => ["--config"]
  | inspect => ["--config"]
  | theme => ["--selector", "--prefix", "--override", "--scope"]

def grammar (command : Command) : Grammar where
  valued := command.valued
  flags := if command = inspect then ["--help", "--code"] else ["--help"]
  letters := []
  endsAtOperand := false

/-- The options of which the value is the path of a file. -/
def fileOptions : Command → List Text
  | build => ["--theme", "--config"]
  | check => ["--config"]
  | inspect => ["--config"]
  | theme => ["--override"]

/-- What each operand has to lead to. -/
def operandNeeds : Command → List Need
  | build => [.directory, .noFile]
  | check => [.anything]
  | inspect => [.file]
  | theme => [.file]

/-- The job of a command, if it has the operands it needs. -/
def job? (command : Command) (arguments : Arguments) : Option Job :=
  let config := arguments.value? "--config"
  match command, arguments.operands with
  | build, [source, target] =>
    some (.build source target (arguments.value? "--theme")
      (arguments.valueOr "--asset" "style-zx.css") config)
  | check, [source] => some (.check source config)
  | inspect, [file] => some (.inspect file config (arguments.hasFlag "--code"))
  | theme, [file] =>
    some (.theme file (arguments.valueOr "--selector" ":root")
      (arguments.valueOr "--prefix" "--theme") (arguments.value? "--override")
      (arguments.valueOr "--scope" ".theme-scope"))
  | _, _ => none

/-- The paths in the arguments of a command. Those in options come first, in the order in which the
options are first given. -/
def needs (command : Command) (arguments : Arguments) : List (Text × Need) :=
  let given := (arguments.values.map (·.1)).eraseDups.filter command.fileOptions.contains
  given.filterMap (fun name => (arguments.value? name).map (·, .file)) ++
    arguments.operands.zip command.operandNeeds

/-- What the arguments of a command ask for. Help is given whatever else they hold. -/
def request (command : Command) (isVerbose : Bool) (arguments : Arguments) : Request :=
  if arguments.hasFlag "--help" then ⟨[], some (.help (some command)), isVerbose⟩
  else ⟨command.needs arguments, command.job? arguments, isVerbose⟩

end Command

/-- The options in front of a command. -/
def commonGrammar : Grammar where
  valued := []
  flags := ["--version", "--verbose", "--help"]
  letters := [("v", "--verbose")]
  endsAtOperand := true

/-- Which of the two options that end the work comes first. -/
def firstAnswer? (flags : List Text) : Option Job :=
  flags.findSome? fun flag =>
    match flag.toString? with
    | some "--version" => some .version
    | some "--help" => some (.help none)
    | _ => none

/-- What operands ask for that should begin with the name of a command. Where they do not, they may
still be options behind a double dash, of which only those that end the work count. -/
def Request.ofOperands? (isVerbose : Bool) : List Text → Option Request
  | [] => none
  | name :: rest =>
    match Command.named? name with
    | some command => (command.grammar.read? rest).map (command.request isVerbose)
    | none =>
      (commonGrammar.read? (name :: rest)).bind fun late =>
        (firstAnswer? late.flags).map fun job => ⟨[], some job, isVerbose⟩

/-- The request in the arguments, unless they hold no command or something unknown. -/
def Request.ofArguments? (arguments : List Text) : Option Request :=
  (commonGrammar.read? arguments).bind fun common =>
    let isVerbose := common.hasFlag "--verbose"
    match firstAnswer? common.flags with
    | some job => some ⟨[], some job, isVerbose⟩
    | none => Request.ofOperands? isVerbose common.operands

/-- Where the configuration is if no other file is named. -/
def standardConfigPath : Text := "pyproject.toml"

/-- The paths at or below which a job reads and writes. -/
def Job.paths (job : Job) : List Path :=
  let config (named : Option Text) : Path := Path.ofText (named.getD standardConfigPath)
  match job with
  | .build source target themeFile asset named =>
    let target := Path.ofText target
    Path.ofText source :: target :: target.append (Path.ofText asset) :: config named ::
      themeFile.toList.map Path.ofText
  | .check source named => [Path.ofText source, config named]
  | .inspect file named _ => [Path.ofText file, config named]
  | .theme file _ _ override _ => Path.ofText file :: override.toList.map Path.ofText
  | .version | .help _ => []

end StaticStyle.CommandLine
