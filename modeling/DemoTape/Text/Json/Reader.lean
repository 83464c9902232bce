/-
# Reading JSON documents

A document is first read as it is written: numerals and quoted texts are checked for their form and kept as
they stand. What a quoted text says is found out when it is asked for. A text may well be unsayable, namely
if it escapes half of a surrogate pair; a document with such a text can still be read.
-/

namespace DemoTape
set_option autoImplicit false

/-- A document as it is written. -/
inductive JsonSource where
  | null
  | bool (b : Bool)
  | number (numeral : List Char)
  | quoted (body : List Char)
  | array (items : List JsonSource)
  | object (fields : List (List Char × JsonSource))

namespace JsonSource

def isBlank (c : Char) : Bool := c = ' ' || c = '\t' || c = '\n' || c = '\r'

def dropBlanks (text : List Char) : List Char := text.dropWhile isBlank

/-! ## Numerals -/

/-- The digits in front, at least one. -/
def digits? (text : List Char) : Option (List Char × List Char) :=
  match text.takeWhile Char.isDigit with
  | [] => none
  | digits => some (digits, text.dropWhile Char.isDigit)

/-- The whole part of a numeral; a leading zero stands alone. -/
def whole? : List Char → Option (List Char × List Char)
  | '0' :: rest => some (['0'], rest)
  | text => digits? text

def fraction? : List Char → Option (List Char × List Char)
  | '.' :: rest => (digits? rest).map fun (digits, rest) => ('.' :: digits, rest)
  | text => some ([], text)

def exponent? : List Char → Option (List Char × List Char)
  | mark :: rest =>
    if mark = 'e' ∨ mark = 'E' then
      let (sign, rest) := match rest with
        | '+' :: rest => (['+'], rest)
        | '-' :: rest => (['-'], rest)
        | rest => ([], rest)
      (digits? rest).map fun (digits, rest) => (mark :: sign ++ digits, rest)
    else some ([], mark :: rest)
  | [] => some ([], [])

def numeral? (text : List Char) : Option (List Char × List Char) := do
  let (sign, text) := match text with
    | '-' :: rest => (['-'], rest)
    | text => ([], text)
  let (whole, text) ← whole? text
  let (fraction, text) ← fraction? text
  let (exponent, text) ← exponent? text
  some (sign ++ whole ++ fraction ++ exponent, text)

/-! ## Quoted texts -/

def hexDigit? (c : Char) : Option Nat :=
  if c.isDigit then some (c.toNat - '0'.toNat)
  else if 'a' ≤ c ∧ c ≤ 'f' then some (c.toNat - 'a'.toNat + 10)
  else if 'A' ≤ c ∧ c ≤ 'F' then some (c.toNat - 'A'.toNat + 10)
  else none

/-- The code unit spelled by four hexadecimal digits, and what follows. -/
def unit? : List Char → Option (Nat × List Char)
  | a :: b :: c :: d :: rest => do
    some ((((← hexDigit? a) * 16 + (← hexDigit? b)) * 16 + (← hexDigit? c)) * 16 + (← hexDigit? d), rest)
  | _ => none

/-- The character meant by a backslash and this one. -/
def escaped? : Char → Option Char
  | '"' => some '"'
  | '\\' => some '\\'
  | '/' => some '/'
  | 'b' => some '\x08'
  | 'f' => some '\x0c'
  | 'n' => some '\n'
  | 'r' => some '\r'
  | 't' => some '\t'
  | _ => none

/-- The characters up to the closing quote, as they stand. -/
def body? : List Char → Option (List Char × List Char)
  | [] => none
  | '"' :: rest => some ([], rest)
  | '\\' :: 'u' :: a :: b :: c :: d :: rest =>
    if (unit? [a, b, c, d]).isSome then
      (body? rest).map fun (body, rest) => ('\\' :: 'u' :: a :: b :: c :: d :: body, rest)
    else none
  | '\\' :: c :: rest =>
    if (escaped? c).isSome then (body? rest).map fun (body, rest) => ('\\' :: c :: body, rest) else none
  | c :: rest => if c.toNat < 0x20 then none else (body? rest).map fun (body, rest) => (c :: body, rest)

/-- What a quoted text says, unless it escapes half of a surrogate pair. -/
def said? : List Char → Option (List Char)
  | [] => some []
  | '\\' :: 'u' :: a :: b :: c :: d :: rest => do
    let (first, _) ← unit? [a, b, c, d]
    if first < 0xD800 ∨ 0xDFFF < first then
      (said? rest).map (Char.ofNat first :: ·)
    else match rest with
      | '\\' :: 'u' :: a :: b :: c :: d :: rest => do
        let (second, _) ← unit? [a, b, c, d]
        if first < 0xDC00 ∧ 0xDC00 ≤ second ∧ second ≤ 0xDFFF then
          (said? rest).map (Char.ofNat (0x10000 + (first - 0xD800) * 0x400 + (second - 0xDC00)) :: ·)
        else none
      | _ => none
  | '\\' :: c :: rest => do
    let meant ← escaped? c
    (said? rest).map (meant :: ·)
  | c :: rest => (said? rest).map (c :: ·)

/-! ## Documents -/

/-- A word, and the document it stands for. -/
def word? (word : String) (document : JsonSource) (text : List Char) : Option (JsonSource × List Char) :=
  if word.toList.isPrefixOf text then some (document, text.drop word.length) else none

mutual
/-- The document in front of the text. A round is spent on each opening bracket and on each item. -/
def document? : (rounds : Nat) → List Char → Option (JsonSource × List Char)
  | 0, _ => none
  | rounds + 1, text =>
    match dropBlanks text with
    | '"' :: rest => (body? rest).map fun (body, rest) => (.quoted body, rest)
    | '[' :: rest =>
      match dropBlanks rest with
      | ']' :: rest => some (.array [], rest)
      | rest => (items? rounds rest).map fun (items, rest) => (.array items, rest)
    | '\x7b' :: rest =>
      match dropBlanks rest with
      | '\x7d' :: rest => some (.object [], rest)
      | rest => (fields? rounds rest).map fun (fields, rest) => (.object fields, rest)
    | 'n' :: rest => word? "null" .null ('n' :: rest)
    | 't' :: rest => word? "true" (.bool true) ('t' :: rest)
    | 'f' :: rest => word? "false" (.bool false) ('f' :: rest)
    | text => (numeral? text).map fun (numeral, rest) => (.number numeral, rest)

/-- Items up to the closing bracket, at least one. -/
def items? : (rounds : Nat) → List Char → Option (List JsonSource × List Char)
  | 0, _ => none
  | rounds + 1, text => do
    let (item, rest) ← document? rounds text
    match dropBlanks rest with
    | ',' :: rest => (items? rounds rest).map fun (items, rest) => (item :: items, rest)
    | ']' :: rest => some ([item], rest)
    | _ => none

/-- Fields up to the closing brace, at least one. -/
def fields? : (rounds : Nat) → List Char → Option (List (List Char × JsonSource) × List Char)
  | 0, _ => none
  | rounds + 1, text =>
    match dropBlanks text with
    | '"' :: rest => do
      let (name, rest) ← body? rest
      match dropBlanks rest with
      | ':' :: rest => do
        let (value, rest) ← document? rounds rest
        match dropBlanks rest with
        | ',' :: rest => (fields? rounds rest).map fun (fields, rest) => ((name, value) :: fields, rest)
        | '\x7d' :: rest => some ([(name, value)], rest)
        | _ => none
      | _ => none
    | _ => none
end

/-- The document that makes up a text, but for blanks around it. Two rounds for each character suffice. -/
def read? (text : String) : Option JsonSource := do
  let (document, rest) ← document? (2 * text.length + 2) text.toList
  if dropBlanks rest = [] then some document else none

end JsonSource
end DemoTape
