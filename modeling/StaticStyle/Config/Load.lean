import StaticStyle.Config.Basic
import StaticStyle.Text.Utf8
import StaticStyle.Toml.Document

namespace StaticStyle

namespace Options

/-- The options in the table of a document. -/
def ofDocument (document : Fields Value) : Except ConfigFault Options :=
  match (Fields.get? "tool" document).getD (.object []) with
  | .object tools =>
    match (Fields.get? "stylezx" tools).getD (.object []) with
    | .object fields => ofFields fields
    | _ => .error .notTable
  | _ => .error (.defect .notTable)

/-- The options in a file, which may be missing. -/
def load (path : Text) (content : Option Bytes) : Except ConfigFault Options :=
  match content with
  | none => .error (.unreadable path)
  | some bytes =>
    match Text.Utf8.decode? bytes with
    | none => .error (.defect .undecodable)
    | some text =>
      match Toml.read text with
      | .error .malformed => .error (.unreadable path)
      | .error .oversizedInteger => .error (.defect .oversizedInteger)
      | .ok document => ofDocument document

end Options

/-- The configuration in a file, which may be missing. -/
def Config.load (path : Text) (content : Option Bytes) : Except ConfigFault Config :=
  (Options.load path content).bind ofOptions

end StaticStyle
