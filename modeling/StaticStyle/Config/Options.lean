import StaticStyle.Value.Display

namespace StaticStyle

structure Options where
  classStem : Value
  attrName : Value
  classAttr : Value
  callee : Value
  themeStem : Value
  hashLength : Value
  extensions : List Value
  assetId : Value
  injectsImport : Value
deriving Repr

/-- Why there is no configuration. -/
inductive ConfigFault where
  | unreadable (path : Text)
  | notTable
  | unknownOption (name : Text)
  | hashLengthOutOfRange (shown : Text)
  | emptyClassStem
  | themeStemWithoutDashes (stem : Text)
  | defect (defect : Defect)
deriving DecidableEq, Repr

def ConfigFault.message : ConfigFault → Text
  | unreadable path => "Cannot read config " ++ path
  | notTable => "[tool.stylezx] must be a table"
  | unknownOption name => "Unknown stylezx option: " ++ name.quoted
  | hashLengthOutOfRange shown => "hash_length must be between 8 and 32, got " ++ shown
  | emptyClassStem => "class_prefix must be a non-empty string"
  | themeStemWithoutDashes stem => "theme_prefix must start with '--', got " ++ stem.quoted
  | defect found => found.message

namespace Options

def standard : Options where
  classStem := .text "zx"
  attrName := .text "zx"
  classAttr := .text "className"
  callee := .text "createStyles"
  themeStem := .text "--theme"
  hashLength := .int 8
  extensions := [".tsx", ".jsx", ".ts", ".js"].map fun name => .text (Text.ofString name)
  assetId := .text "virtual:style-zx.css"
  injectsImport := .bool true

/-- The items of a value: the code points of a text, the items of a list, the keys of an object. -/
def items? : Value → Option (List Value)
  | .text t => some (t.map fun c => .text [c])
  | .list items => some items
  | .object fields => some (fields.map fun entry => .text entry.1)
  | _ => none

/-- Sets the option of a name, in which dashes and low lines are the same. -/
def set (options : Options) (name : Text) (value : Value) : Except ConfigFault Options :=
  match (Text.substitute '-' [.char '_'] name).toString? with
  | some "class_prefix" => .ok { options with classStem := value }
  | some "attribute" => .ok { options with attrName := value }
  | some "class_attribute" => .ok { options with classAttr := value }
  | some "styles_callee" => .ok { options with callee := value }
  | some "theme_prefix" => .ok { options with themeStem := value }
  | some "hash_length" => .ok { options with hashLength := value }
  | some "extensions" =>
    match items? value with
    | some extensions => .ok { options with extensions }
    | none => .error (.defect .mistyped)
  | some "virtual_module_id" => .ok { options with assetId := value }
  | some "inject_import" => .ok { options with injectsImport := value }
  | _ => .error (.unknownOption name)

/-- The options of a table, the standard ones where it has none. -/
def ofFields (fields : Fields Value) : Except ConfigFault Options :=
  fields.foldlM (fun options entry => options.set entry.1 entry.2) standard

end Options

end StaticStyle
