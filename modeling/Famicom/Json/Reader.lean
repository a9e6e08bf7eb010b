import Famicom.Json.Text

/-!
Reading JSON. A text is one value between blanks. A reader takes a value off the front of the text and returns
the rest; there are as many nested values as characters at most, which bounds the recursion.
-/

namespace Famicom.Json

/-- The characters that may stand between tokens. -/
def isBlank (c : Char) : Bool := c = ' ' || c = '\n' || c = '\t' || c = '\r'

/-- Passes over blanks. -/
def skipBlanks (text : List Char) : List Char := text.dropWhile isBlank

/-- Takes a word off the front of a text. -/
def word? (word text : List Char) : Option (List Char) :=
  if word.isPrefixOf text then some (text.drop word.length) else none

/-- Takes a run of at least one digit off the front of a text. -/
def digits? (text : List Char) : Option (List Char × List Char) :=
  let digits := text.takeWhile isDigit
  if digits.isEmpty then none else some (digits, text.drop digits.length)

/-- Takes the whole part of a number: digits without a leading zero. -/
def whole? (text : List Char) : Option (List Char × List Char) := do
  let (digits, rest) ← digits? text
  if digits.length > 1 && digits.head? = some '0' then none else return (digits, rest)

/-- Takes a fraction, if there is one. -/
def fraction? : List Char → Option (List Char × List Char)
  | '.' :: rest => do
    let (digits, rest) ← digits? rest
    return ('.' :: digits, rest)
  | text => some ([], text)

/-- Takes an exponent's sign, if there is one. -/
def sign : List Char → List Char × List Char
  | '+' :: rest => (['+'], rest)
  | '-' :: rest => (['-'], rest)
  | text => ([], text)

/-- Takes an exponent, if there is one. -/
def exponent? (text : List Char) : Option (List Char × List Char) :=
  match text with
  | c :: rest =>
    if c = 'e' || c = 'E' then do
      let (mark, rest) := sign rest
      let (digits, rest) ← digits? rest
      return (c :: mark ++ digits, rest)
    else some ([], text)
  | [] => some ([], [])

/-- Takes a number without its sign. -/
def unsigned? (text : List Char) : Option (List Char × List Char) := do
  let (whole, rest) ← whole? text
  let (fraction, rest) ← fraction? rest
  let (exponent, rest) ← exponent? rest
  return (whole ++ fraction ++ exponent, rest)

/-- Takes a value that holds no others. -/
def scalar? (text : List Char) : Option (Json × List Char) :=
  match text with
  | 'n' :: _ => (word? "null".toList text).map (.null, ·)
  | 't' :: _ => (word? "true".toList text).map (.bool true, ·)
  | 'f' :: _ => (word? "false".toList text).map (.bool false, ·)
  | '"' :: rest => (pieces rest).map fun (ps, rest) => (.string ((textOf ps).map String.ofList), rest)
  | '-' :: rest => (unsigned? rest).map fun (spelling, rest) => (.number ('-' :: spelling), rest)
  | _ => (unsigned? text).map fun (spelling, rest) => (.number spelling, rest)

/-- Takes a member's name and the colon behind it. -/
def name? (text : List Char) : Option (Option String × List Char) :=
  match skipBlanks text with
  | '"' :: rest => do
    let (ps, rest) ← pieces rest
    match skipBlanks rest with
    | ':' :: rest => return ((textOf ps).map String.ofList, rest)
    | _ => none
  | _ => none

mutual

/-- Takes a value, blanks in front of it included. -/
def value? : Nat → List Char → Option (Json × List Char)
  | 0, _ => none
  | fuel + 1, text =>
    match skipBlanks text with
    | '[' :: rest =>
      match skipBlanks rest with
      | ']' :: rest => some (.array [], rest)
      | _ => (items? fuel rest).map fun (items, rest) => (.array items, rest)
    | '\x7b' :: rest =>
      match skipBlanks rest with
      | '\x7d' :: rest => some (.object [], rest)
      | _ => (members? fuel rest).map fun (members, rest) => (.object members, rest)
    | text => scalar? text

/-- Takes the items of an array, at least one, and its closing bracket. -/
def items? : Nat → List Char → Option (List Json × List Char)
  | 0, _ => none
  | fuel + 1, text => do
    let (item, rest) ← value? fuel text
    match skipBlanks rest with
    | ',' :: rest =>
      let (items, rest) ← items? fuel rest
      return (item :: items, rest)
    | ']' :: rest => return ([item], rest)
    | _ => none

/-- Takes the members of an object, at least one, and its closing brace. -/
def members? : Nat → List Char → Option (List (Option String × Json) × List Char)
  | 0, _ => none
  | fuel + 1, text => do
    let (name, rest) ← name? text
    let (value, rest) ← value? fuel rest
    match skipBlanks rest with
    | ',' :: rest =>
      let (members, rest) ← members? fuel rest
      return ((name, value) :: members, rest)
    | '\x7d' :: rest => return ([(name, value)], rest)
    | _ => none

end

/-- The value that a text spells. -/
def read? (text : String) : Option Json := do
  let (value, rest) ← value? (2 * text.length + 2) text.toList
  if (skipBlanks rest).isEmpty then return value else none

end Famicom.Json
