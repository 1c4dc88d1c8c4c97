import StaticStyle.Text.Basic

namespace StaticStyle

abbrev Bytes := List UInt8

namespace Text.Utf8

/-- The bytes of one character. -/
def encodeChar (c : Char) : Bytes :=
  let number := c.toNat
  let trailing (shift : Nat) : UInt8 := UInt8.ofNat (0x80 + number / Nat.pow 2 shift % 64)
  if number < 0x80 then [UInt8.ofNat number]
  else if number < 0x800 then [UInt8.ofNat (0xC0 + number / Nat.pow 2 6), trailing 0]
  else if number < 0x10000 then [UInt8.ofNat (0xE0 + number / Nat.pow 2 12), trailing 6, trailing 0]
  else [UInt8.ofNat (0xF0 + number / Nat.pow 2 18), trailing 12, trailing 6, trailing 0]

/-- The bytes of a text without surrogates. -/
def encode? : Text → Option Bytes
  | [] => some []
  | .char c :: rest => (encodeChar c ++ ·) <$> encode? rest
  | .surrogate _ :: _ => none

/-- The lower six bits of a continuation byte. -/
def continuation? (byte : UInt8) : Option Nat :=
  if 0x80 ≤ byte ∧ byte < 0xC0 then some (byte.toNat - 0x80) else none

/-- A character above a least number, which its count of bytes implies. -/
def charFrom? (least number : Nat) : Option CodePoint :=
  if least ≤ number then
    match CodePoint.ofNat? number with
    | some (.char c) => some (.char c)
    | _ => none
  else none

def decode? : Bytes → Option Text
  | [] => some []
  | a :: rest =>
    if a < 0x80 then
      (.char (Char.ofNat a.toNat) :: ·) <$> decode? rest
    else if a < 0xE0 then
      match rest with
      | b :: rest => do
        let b ← continuation? b
        let c ← charFrom? 0x80 ((a.toNat - 0xC0) * 64 + b)
        (c :: ·) <$> decode? rest
      | _ => none
    else if a < 0xF0 then
      match rest with
      | b :: c :: rest => do
        let b ← continuation? b
        let c ← continuation? c
        let d ← charFrom? 0x800 (((a.toNat - 0xE0) * 64 + b) * 64 + c)
        (d :: ·) <$> decode? rest
      | _ => none
    else if a < 0xF8 then
      match rest with
      | b :: c :: d :: rest => do
        let b ← continuation? b
        let c ← continuation? c
        let d ← continuation? d
        let e ← charFrom? 0x10000 ((((a.toNat - 0xF0) * 64 + b) * 64 + c) * 64 + d)
        (e :: ·) <$> decode? rest
      | _ => none
    else none

end Text.Utf8

/-- Writes every line end (LF, CR or CR LF) as a line feed. -/
def Text.unifyLineEnds : Text → Text
  | [] => []
  | .char '\r' :: .char '\n' :: rest => .char '\n' :: unifyLineEnds rest
  | c :: rest => (if c = '\r' then '\n' else c) :: unifyLineEnds rest

end StaticStyle
