import StaticStyle.Digest.Md5
import StaticStyle.Json.Canonical
import StaticStyle.Value.Display

namespace StaticStyle

/-- The first `length` code points, or all but the last `-length`. -/
def Text.leading (text : Text) (length : Int) : Text :=
  if 0 ≤ length then text.take length.toNat else text.take (text.length - length.natAbs)

namespace Style

/-- The digest of the canonical text of a style, if that text can be written. -/
def digest (style : Value) : Except Defect Text :=
  match Json.defect? style.ordered with
  | some defect => .error defect
  | none =>
    match Text.Utf8.encode? (Json.canonical style) with
    | some bytes => .ok (Md5.hexDigest bytes)
    | none => .error .unencodable

/-- The identity of a style, with as many digits of its digest as `length` says. -/
def identify (style : Value) (length : Int) : Except Defect Text :=
  (digest style).map fun digits => digits.leading length

/-- The class of an identity. -/
def className (stem identity : Text) : Text := stem ++ .char '-' :: identity

end Style

end StaticStyle
