import StaticStyle.Config.Options

/-!
The configuration of a compilation. It exists only if the options that are compared with something
compare well. Any other option may be of any kind, and is a defect only where it is used as a text or
as a number.
-/

namespace StaticStyle

/-- How styles are found and named. -/
structure Config where
  /-- The beginning of every class name, which is written as it is shown. -/
  classStem : Value
  /-- The attribute that holds a style. -/
  attrName : Except Defect Text
  /-- The attribute that holds class names. It is written as it is shown, and found if it is a text. -/
  classAttr : Value
  /-- The function that is called with styles. -/
  callee : Except Defect Text
  /-- The beginning of every theme variable. -/
  themeStem : Text
  /-- The number of digits of an identity. -/
  hashLength : Except Defect Nat
  /-- The endings of the paths that are handled. -/
  extensions : List (Except Defect Text)
  /-- The public name of the style sheet, which is written as it is shown. -/
  assetId : Value
  injectsImport : Bool
  hashLength_bounds : ∀ length, hashLength = .ok length → 8 ≤ length ∧ length ≤ 32
  classStem_truthy : classStem.isTruthy = true
  themeStem_dashes : themeStem.startsWith "--" = true
deriving Repr

namespace Config

/-- Whether a path has one of some endings. Those behind the first one that fits are not looked at. -/
def endsWithAny (path : Text) : List (Except Defect Text) → Except Defect Bool
  | [] => .ok false
  | .ok ending :: rest => if path.endsWith ending then .ok true else endsWithAny path rest
  | .error defect :: _ => .error defect

/-- Whether a path has one of the extensions. -/
def handles (config : Config) (path : Text) : Except Defect Bool :=
  endsWithAny path config.extensions

/-- An option that has to be a text. -/
def asText : Value → Except Defect Text
  | .text t => .ok t
  | _ => .error .mistyped

/-- An option that has to be a number of digits. -/
def asLength : Value → Except Defect Nat
  | .int n => .ok n.toNat
  | _ => .error .mistyped

/-- Whether a number lies between 8 and 32. The truth values count as 0 and 1. -/
def isHashLength? : Value → Option Bool
  | .bool _ => some false
  | .int n => some (8 ≤ n && n ≤ 32)
  | .float x => some ((x.compareInt? 8).any (·.isGE) && (x.compareInt? 32).any (·.isLE))
  | _ => none

theorem asLength_bounds {value : Value} (inRange : isHashLength? value = some true) (length : Nat)
    (found : asLength value = .ok length) : 8 ≤ length ∧ length ≤ 32 := by
  cases value with
  | int n =>
    simp only [isHashLength?, Option.some.injEq, Bool.and_eq_true, decide_eq_true_eq] at inRange
    simp only [asLength, Except.ok.injEq] at found
    omega
  | _ => simp [asLength] at found

/-- The fault of a number of digits that is out of range. -/
def lengthFault (value : Value) : ConfigFault :=
  match value.shown with
  | .ok shown => .hashLengthOutOfRange shown
  | .error defect => .defect defect

/-- The configuration of options: first the number of digits is checked, then the beginnings of the class
names and of the theme variables. -/
def ofOptions (options : Options) : Except ConfigFault Config :=
  match inRange : isHashLength? options.hashLength with
  | none => .error (.defect .mistyped)
  | some false => .error (lengthFault options.hashLength)
  | some true =>
    if isTruthy : options.classStem.isTruthy = true then
      match options.themeStem with
      | .text themeStem =>
        if hasDashes : themeStem.startsWith "--" = true then
          .ok
            { classStem := options.classStem
              attrName := asText options.attrName
              classAttr := options.classAttr
              callee := asText options.callee
              themeStem
              hashLength := asLength options.hashLength
              extensions := options.extensions.map asText
              assetId := options.assetId
              injectsImport := options.injectsImport.isTruthy
              hashLength_bounds := asLength_bounds inRange
              classStem_truthy := isTruthy
              themeStem_dashes := hasDashes }
        else .error (.themeStemWithoutDashes themeStem)
      | _ => .error (.defect .notText)
    else .error .emptyClassStem

/-- The configuration of a table of options. -/
def ofFields (fields : Fields Value) : Except ConfigFault Config :=
  (Options.ofFields fields).bind ofOptions

def standard : Config where
  classStem := .text "zx"
  attrName := .ok "zx"
  classAttr := .text "className"
  callee := .ok "createStyles"
  themeStem := "--theme"
  hashLength := .ok 8
  extensions := [".tsx", ".jsx", ".ts", ".js"].map fun name => .ok (Text.ofString name)
  assetId := .text "virtual:style-zx.css"
  injectsImport := true
  hashLength_bounds := by simp
  classStem_truthy := by decide
  themeStem_dashes := by decide

end Config

end StaticStyle
