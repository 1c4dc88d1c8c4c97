import StaticStyle.Toml.Statement

namespace StaticStyle.Toml

/-- The table so far, the key of the section, and what may not be declared or changed any more. -/
structure Document where
  table : Fields Value
  header : Key
  /-- Tables that have been declared, by a header or by a dotted key in an earlier section. -/
  declared : List Key
  /-- Tables that dotted keys of this section lead through. -/
  pending : List Key
  /-- Tables and arrays that were written as values. -/
  complete : List Key

namespace Document

def empty : Document := ⟨[], [], [], [], []⟩

def isDeclared (document : Document) (key : Key) : Bool := document.declared.contains key

/-- Whether a key is or lies behind one that was given a table or an array as its value. -/
def isComplete (document : Document) (key : Key) : Bool :=
  document.complete.any fun other => other.isPrefixOf key

/-- The keys that a dotted key leads through. -/
def passed (header key : Key) : List Key :=
  (List.range (key.length - 1)).map fun count => header ++ key.take (count + 1)

/-- A new section begins: the dotted keys of the last one count as declared. -/
def endSection (document : Document) : Document :=
  { document with declared := document.pending ++ document.declared, pending := [] }

/-- Forgets what is known about a key and everything behind it. -/
def forget (key : Key) (document : Document) : Document :=
  let isBehind (other : Key) : Bool := key.isPrefixOf other
  { document with
    declared := document.declared.filter fun other => !isBehind other
    complete := document.complete.filter fun other => !isBehind other }

def addPair (document : Document) (key : Key) (value : Value) : Option Document :=
  let header := document.header
  let through := passed header key
  if through.any document.isDeclared then none
  else
    let parent := header ++ key.dropLast
    if document.isComplete parent then none
    else
      (changeTable true (addNew (key.getLastD []) value) parent document.table).map fun table =>
        let complete := if isContainer value then [header ++ key] else []
        { document with
          table
          pending := through ++ document.pending
          complete := complete ++ document.complete }

def addTable (document : Document) (key : Key) : Option Document :=
  let document := document.endSection
  if document.isDeclared key || document.isComplete key then none
  else
    (changeTable true some key document.table).map fun table =>
      { document with table, header := key, declared := key :: document.declared }

/-- Adds an empty table to the array of a name, which may be new. -/
def appendTable (name : Text) (table : Fields Value) : Option (Fields Value) :=
  match table.get? name with
  | none => some (table.put name (.list [.object []]))
  | some (.list items) => some (table.put name (.list (items ++ [.object []])))
  | some _ => none

def addTableInArray (document : Document) (key : Key) : Option Document :=
  let document := document.endSection
  if document.isComplete key then none
  else
    let document := document.forget key
    (changeTable true (appendTable (key.getLastD [])) key.dropLast document.table).map fun table =>
      { document with table, header := key, declared := key :: document.declared }

def add (document : Document) : Statement → Option Document
  | .pair key value => document.addPair key value
  | .table key => document.addTable key
  | .tableInArray key => document.addTableInArray key

end Document

/-- Writes every CR LF as a line feed. -/
def unifyLineEnds : Text → Text
  | [] => []
  | .char '\r' :: .char '\n' :: rest => .char '\n' :: unifyLineEnds rest
  | c :: rest => c :: unifyLineEnds rest

/-- Whether a line without its leading blanks holds no statement. -/
def isEmptyLine : Text → Bool
  | [] => true
  | c :: _ => c == '\n' || c == '#'

/-- Reads one line: a statement, which is added, or none. -/
def readLine (document : Document) (text : Text) : Reading Document :=
  let text := skipBlank text
  if isEmptyLine text then (required (skipLineRest text)).map fun rest => (document, rest)
  else
    (readStatement text).bind fun (statement, rest) =>
      (required (document.add statement)).bind fun document =>
        (required (skipLineRest rest)).map fun rest => (document, rest)

/-- Reads all lines of a text, one after another. -/
def readLines (document : Document) (text : Text) : Except Flaw Document :=
  if text.isEmpty then .ok document
  else
    match readLine document text with
    | .error flaw => .error flaw
    | .ok (document, rest) =>
      if rest.length < text.length then readLines document rest else .error .malformed
termination_by text.length

/-- The table of a document. -/
def read (text : Text) : Except Flaw (Fields Value) :=
  (readLines .empty (unifyLineEnds text)).map Document.table

end StaticStyle.Toml
