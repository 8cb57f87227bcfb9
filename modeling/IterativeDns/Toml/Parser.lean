import IterativeDns.Toml.Scalar
import IterativeDns.Toml.Table

/-!
# Reading TOML

Keys, values and whole documents of TOML 1.1. A value in brackets or braces may hold further
ones, up to `maxNesting` deep, and readers of values recurse on that; readers of a run of things
recurse on fuel that the length of the text bounds, since every step takes at least one
character. `parse?` shows neither.
-/

namespace IterativeDns.Toml

/-! ### Keys -/

/-- Characters of a key without quotes. -/
def isBare (c : Char) : Bool :=
  c.isAlphanum || c == '-' || c == '_'

/-- One part of a key. -/
def keyPart? : List Char → Option (String × List Char)
  | '"' :: cs => asString (basicBody cs)
  | '\'' :: cs => asString (literalBody cs)
  | cs =>
    let word := cs.takeWhile isBare
    if word.isEmpty then none else some (String.ofList word, cs.dropWhile isBare)

/-- A key of parts with dots between them: all but the last part, the last part, and the text
after the blanks behind it. -/
def keyParts? : (fuel : Nat) → List Char → Option (List String × String × List Char)
  | 0, _ => none
  | fuel + 1, cs =>
    match keyPart? (skipSpaces cs) with
    | none => none
    | some (part, rest) =>
      match skipSpaces rest with
      | '.' :: rest =>
        (keyParts? fuel rest).map fun (path, last, rest) => (part :: path, last, rest)
      | rest => some ([], part, rest)

/-- How deep brackets and braces may nest, and how many parts a key may have. -/
def maxNesting : Nat := 80

/-- A key that has not too many parts. -/
def key? (cs : List Char) : Option (List String × String × List Char) :=
  (keyParts? cs.length cs).filter fun (path, _, _) => path.length < maxNesting

/-! ### Values -/

/-- A key, an equals sign and a value: the path and the last part of the key, the value, and the
text after it. What may stand around the equals sign is passed over by `skip?`. -/
def assignment? (skip? : List Char → Option (List Char))
    (value? : List Char → Option (Document × List Char)) (cs : List Char) :
    Option (List String × String × Document × List Char) := do
  let (path, key, rest) ← key? cs
  match ← skip? rest with
  | '=' :: rest =>
    let (d, rest) ← value? (← skip? rest)
    return (path, key, d, rest)
  | _ => none

/-- The text after everything that may stand between the parts of a value in braces: blanks,
comments and line ends. -/
def skipBetween? (cs : List Char) : Option (List Char) :=
  skipLines? cs.length cs

/-- The rest of a sequence in brackets. A comma may close it. -/
def items? (value? : List Char → Option (Document × List Char)) :
    (fuel : Nat) → List Char → Option (List Document × List Char)
  | 0, _ => none
  | fuel + 1, cs =>
    match skipBetween? cs with
    | none => none
    | some (']' :: rest) => some ([], rest)
    | some cs =>
      match value? cs with
      | none => none
      | some (d, rest) =>
        match skipBetween? rest with
        | some (',' :: rest) => (items? value? fuel rest).map fun (ds, rest) => (d :: ds, rest)
        | some (']' :: rest) => some ([d], rest)
        | _ => none

/-- The rest of a table in braces, given what has been read of it. A comma may close it. -/
def inlineMembers? (value? : List Char → Option (Document × List Char)) :
    (fuel : Nat) → Members → List Char → Option (Members × List Char)
  | 0, _, _ => none
  | fuel + 1, members, cs =>
    match skipBetween? cs with
    | none => none
    | some ('\x7d' :: rest) => some (members, rest)
    | some cs =>
      match assignment? skipBetween? value? cs with
      | none => none
      | some (path, key, d, rest) =>
        match members.put? [] path key d with
        | none => none
        | some members =>
          match skipBetween? rest with
          | some (',' :: rest) => inlineMembers? value? fuel members rest
          | some ('\x7d' :: rest) => some (members, rest)
          | _ => none

/-- Characters read as a text. -/
def asText (read? : Option (List Char × List Char)) : Option (Document × List Char) :=
  (asString read?).map fun (s, rest) => (.text s, rest)

/-- A value whose brackets and braces nest at most so deep, and the text after it. -/
def value? : (nesting : Nat) → List Char → Option (Document × List Char)
  | _, '"' :: '"' :: '"' :: cs => asText (longBasicBody false (skipFirstLineEnd cs))
  | _, '"' :: cs => asText (basicBody cs)
  | _, '\'' :: '\'' :: '\'' :: cs => asText (longLiteralBody (skipFirstLineEnd cs))
  | _, '\'' :: cs => asText (literalBody cs)
  | 0, '[' :: _ => none
  | nesting + 1, '[' :: cs =>
    (items? (value? nesting) cs.length cs).map fun (ds, rest) => (.sequence ds, rest)
  | 0, '\x7b' :: _ => none
  | nesting + 1, '\x7b' :: cs =>
    (inlineMembers? (value? nesting) cs.length [] cs).map fun (members, rest) =>
      (.table (documents members), rest)
  | _, cs =>
    let (word, rest) := scalarChars cs
    (scalar? word).map fun d => (d, rest)

/-! ### Documents -/

/-- What has been read of a document. -/
structure Draft where
  /-- The header under which the next keys stand. -/
  header : List String := []
  members : Members := []

/-- A header or an assignment, and the text after it. -/
def statement? (draft : Draft) : List Char → Option (Draft × List Char)
  | '[' :: '[' :: cs =>
    match key? cs with
    | some (path, key, ']' :: ']' :: rest) =>
      (draft.members.openItem? path key).map fun members => (⟨path ++ [key], members⟩, rest)
    | _ => none
  | '[' :: cs =>
    match key? cs with
    | some (path, key, ']' :: rest) =>
      (draft.members.openTable? path key).map fun members => (⟨path ++ [key], members⟩, rest)
    | _ => none
  | cs =>
    match assignment? (some ∘ skipSpaces) (value? maxNesting) cs with
    | some (path, key, d, rest) =>
      (draft.members.put? draft.header path key d).map fun members =>
        ({ draft with members }, rest)
    | none => none

/-- Reads statements to the end of the text, each on a line of its own. -/
def statements? : (fuel : Nat) → Draft → List Char → Option Members
  | 0, _, _ => none
  | fuel + 1, draft, cs =>
    match skipBetween? cs with
    | none => none
    | some [] => some draft.members
    | some cs =>
      match statement? draft cs with
      | none => none
      | some (draft, rest) =>
        match finishLine? rest with
        | none => none
        | some rest => statements? fuel draft rest

/-- The text without a byte order mark at its start. -/
def skipByteOrderMark : List Char → List Char
  | '\ufeff' :: cs => cs
  | cs => cs

def parse? (text : String) : Option Document :=
  let cs := skipByteOrderMark text.toList
  (statements? (cs.length + 1) {} cs).map fun members => .table (documents members)

end IterativeDns.Toml
