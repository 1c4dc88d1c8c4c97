import StaticStyle.Fields

/-!
Arguments of commands. An option begins with a dash. Its value is the next argument, whatever that
is, or stands behind an equals sign. Arguments that are not options are operands; behind a double
dash all arguments are.
-/

namespace StaticStyle.CommandLine

/-- The options that a command has. -/
structure Grammar where
  /-- The options with a value. -/
  valued : List Text
  /-- The options without one. -/
  flags : List Text
  /-- The letters that may stand behind a single dash, and the options they are short for. -/
  letters : Fields Text
  /-- Whether the first operand ends the options. -/
  endsAtOperand : Bool
deriving Repr

/-- Arguments sorted into operands, values of options, and options without a value. -/
structure Arguments where
  operands : List Text
  values : List (Text × Text)
  flags : List Text
deriving DecidableEq, Repr

namespace Arguments

/-- The value of an option. Of several the last counts. -/
def value? (name : Text) (arguments : Arguments) : Option Text :=
  Fields.get? name arguments.values.reverse

def valueOr (name fallback : Text) (arguments : Arguments) : Text :=
  (arguments.value? name).getD fallback

def hasFlag (name : Text) (arguments : Arguments) : Bool := arguments.flags.contains name

def addOperand (operand : Text) (arguments : Arguments) : Arguments :=
  { arguments with operands := operand :: arguments.operands }

def addValue (name value : Text) (arguments : Arguments) : Arguments :=
  { arguments with values := (name, value) :: arguments.values }

def addFlags (names : List Text) (arguments : Arguments) : Arguments :=
  { arguments with flags := names ++ arguments.flags }

end Arguments

/-- Whether an argument is an option. A dash alone is not. -/
def isOption : Text → Bool
  | .char '-' :: _ :: _ => true
  | _ => false

/-- The name in an option, and what stands behind the first equals sign. -/
def splitOption (option : Text) : Text × Option Text :=
  match option.span (· != .char '=') with
  | (name, _ :: value) => (name, some value)
  | (name, []) => (name, none)

/-- The options that letters behind a single dash are short for. -/
def Grammar.ofLetters? (grammar : Grammar) : Text → Option (List Text)
  | .char '-' :: .char '-' :: _ => none
  | _ :: letters => letters.mapM fun letter => grammar.letters.get? [letter]
  | [] => none

/-- Sorts arguments, unless one is an unknown option, lacks its value, or has one too many. -/
def Grammar.read? (grammar : Grammar) : List Text → Option Arguments
  | [] => some ⟨[], [], []⟩
  | argument :: rest =>
    if argument = Text.ofString "--" then some ⟨rest, [], []⟩
    else if isOption argument then
      let (name, attached) := splitOption argument
      if grammar.valued.contains name then
        match attached, rest with
        | some value, rest => (grammar.read? rest).map (.addValue name value)
        | none, value :: rest => (grammar.read? rest).map (.addValue name value)
        | none, [] => none
      else if grammar.flags.contains name then
        if attached.isSome then none else (grammar.read? rest).map (.addFlags [name])
      else
        match grammar.ofLetters? argument with
        | some names => (grammar.read? rest).map (.addFlags names)
        | none => none
    else if grammar.endsAtOperand then some ⟨argument :: rest, [], []⟩
    else (grammar.read? rest).map (.addOperand argument)

end StaticStyle.CommandLine
