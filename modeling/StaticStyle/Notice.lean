import StaticStyle.Text.Basic

namespace StaticStyle

inductive Notice.Level where
  | debug
  | info
  | warning
deriving DecidableEq, Repr

/-- The part of the program that a notice comes from. -/
inductive Notice.Channel where
  | compiler
  | session
  | theme
deriving DecidableEq, Repr

structure Notice where
  level : Notice.Level
  channel : Notice.Channel
  message : Text
deriving DecidableEq, Repr

namespace Notice

def Level.name : Level → Text
  | debug => "DEBUG"
  | info => "INFO"
  | warning => "WARNING"

def Channel.name : Channel → Text
  | compiler => "stylezx.compiler.css"
  | session => "stylezx.plugin.host"
  | theme => "stylezx.theme.store"

/-- A notice as a line of the log. -/
def line (notice : Notice) : Text :=
  notice.level.name ++ " " ++ notice.channel.name ++ ": " ++ notice.message

/-- Whether a notice is given also when only warnings are wanted. -/
def isWarning (notice : Notice) : Bool := notice.level == .warning

end Notice

end StaticStyle
