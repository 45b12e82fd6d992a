/-
EventWire.Json.Reader — documents from text.

The grammar is the usual one: four blank characters, no leading zeros, no comma after the last item.
Each reader answers with what it has read and what is left. The readers of nested parts call each
other; every round takes at least one character in at most two calls, which bounds their depth
(`Json.read?`).
-/
import EventWire.Json

namespace EventWire.Json

/-! ## Blanks and words -/

def isBlank (c : Char) : Bool := c == ' ' || c == '\t' || c == '\n' || c == '\r'

def skipBlanks (cs : List Char) : List Char := cs.dropWhile isBlank

/-- What follows a word at the start of a text. -/
def dropWord? : List Char → List Char → Option (List Char)
  | [], cs => some cs
  | w :: word, c :: cs => if w = c then dropWord? word cs else none
  | _ :: _, [] => none

/-! ## Strings -/

/-- A part of a string literal: a character, or a unit of UTF-16 named by an escape. -/
inductive Piece where
  | char (c : Char)
  | unit (n : Nat)
deriving DecidableEq

def hexValue? (c : Char) : Option Nat :=
  if c.isDigit then some (c.toNat - '0'.toNat)
  else if 'a' ≤ c ∧ c ≤ 'f' then some (c.toNat - 'a'.toNat + 10)
  else if 'A' ≤ c ∧ c ≤ 'F' then some (c.toNat - 'A'.toNat + 10)
  else none

/-- The unit that four hexadecimal digits name. -/
def unit? (a b c d : Char) : Option Nat := do
  let a ← hexValue? a
  let b ← hexValue? b
  let c ← hexValue? c
  let d ← hexValue? d
  some (((a * 16 + b) * 16 + c) * 16 + d)

/-- The character that follows a backslash for another one. -/
def unescape? (c : Char) : Option Char :=
  if c = '"' then some '"'
  else if c = '\\' then some '\\'
  else if c = '/' then some '/'
  else if c = 'b' then some '\x08'
  else if c = 'f' then some '\x0c'
  else if c = 'n' then some '\n'
  else if c = 'r' then some '\r'
  else if c = 't' then some '\t'
  else none

/-- The parts of a string literal after its opening quote. -/
def readPieces : List Char → Option (List Piece × List Char)
  | [] => none
  | '"' :: rest => some ([], rest)
  | '\\' :: 'u' :: a :: b :: c :: d :: rest => do
    let unit ← unit? a b c d
    let (pieces, rest) ← readPieces rest
    some (.unit unit :: pieces, rest)
  | '\\' :: c :: rest => do
    let c ← unescape? c
    let (pieces, rest) ← readPieces rest
    some (.char c :: pieces, rest)
  | c :: rest =>
    if c.toNat < 0x20 ∨ c = '\\' then none
    else do
      let (pieces, rest) ← readPieces rest
      some (.char c :: pieces, rest)

def isHighSurrogate (n : Nat) : Bool := 0xd800 ≤ n && n < 0xdc00

def isLowSurrogate (n : Nat) : Bool := 0xdc00 ≤ n && n < 0xe000

/-- The characters that pieces denote; the halves of a surrogate pair are one character. -/
def joinPieces : List Piece → Option (List Char)
  | [] => some []
  | .char c :: rest => (joinPieces rest).map (c :: ·)
  | .unit high :: .unit low :: rest =>
    if isHighSurrogate high then
      if isLowSurrogate low then
        (joinPieces rest).map
          (Char.ofNat (0x10000 + (high - 0xd800) * 0x400 + (low - 0xdc00)) :: ·)
      else none
    else if isLowSurrogate high then none
    else (joinPieces (.unit low :: rest)).map (Char.ofNat high :: ·)
  | .unit n :: rest =>
    if isHighSurrogate n || isLowSurrogate n then none
    else (joinPieces rest).map (Char.ofNat n :: ·)

/-- A string literal after its opening quote. -/
def readLiteral (cs : List Char) : Option (Literal × List Char) := do
  let (pieces, rest) ← readPieces cs
  some ((joinPieces pieces).map String.ofList, rest)

/-! ## Numbers -/

/-- One or more digits. -/
def readDigits (cs : List Char) : Option (List Decimal.Digit × List Char) :=
  match Decimal.spanDigits cs with
  | ([], _) => none
  | found => some found

/-- Digits before the point: a single zero, or no zero first. -/
def readWhole (cs : List Char) : Option (Nat × List Char) := do
  let (ds, rest) ← readDigits cs
  if ds.head? = some Decimal.zero ∧ 1 < ds.length then none else some (Decimal.ofDigits ds, rest)

/-- Digits after the point, if there is one. -/
def readFraction (cs : List Char) : Option (List Decimal.Digit × List Char) :=
  match cs with
  | '.' :: rest => readDigits rest
  | _ => some ([], cs)

/-- The digits of an exponent after its sign. -/
def readPower (negative : Bool) (cs : List Char) : Option (Option Int × List Char) := do
  let (ds, rest) ← readDigits cs
  let power : Int := Decimal.ofDigits ds
  some (some (if negative then -power else power), rest)

/-- The exponent, if there is one. -/
def readExponent (cs : List Char) : Option (Option Int × List Char) :=
  match cs with
  | c :: rest =>
    if c = 'e' ∨ c = 'E' then
      match rest with
      | '+' :: rest => readPower false rest
      | '-' :: rest => readPower true rest
      | _ => readPower false rest
    else some (none, cs)
  | [] => some (none, cs)

/-- A number after its sign. -/
def readUnsigned (negative : Bool) (cs : List Char) : Option (Number × List Char) := do
  let (whole, rest) ← readWhole cs
  let (fraction, rest) ← readFraction rest
  let (exponent, rest) ← readExponent rest
  some (⟨negative, whole, fraction, exponent⟩, rest)

def readNumber (cs : List Char) : Option (Number × List Char) :=
  match cs with
  | '-' :: rest => readUnsigned true rest
  | _ => readUnsigned false cs

/-! ## Documents -/

/-- The rest of a member after its name. -/
def dropColon? (cs : List Char) : Option (List Char) :=
  match skipBlanks cs with
  | ':' :: rest => some rest
  | _ => none

mutual

/-- A document, after any blanks. -/
def readValue : Nat → List Char → Option (Json × List Char)
  | 0, _ => none
  | fuel + 1, cs =>
    match skipBlanks cs with
    | [] => none
    | c :: rest =>
      if c = 'n' then (dropWord? ['u', 'l', 'l'] rest).map (null, ·)
      else if c = 't' then (dropWord? ['r', 'u', 'e'] rest).map (bool true, ·)
      else if c = 'f' then (dropWord? ['a', 'l', 's', 'e'] rest).map (bool false, ·)
      else if c = '"' then (readLiteral rest).map fun (s, rest) => (string s, rest)
      else if c = '[' then
        match skipBlanks rest with
        | ']' :: rest => some (array [], rest)
        | rest => (readItems fuel rest).map fun (items, rest) => (array items, rest)
      else if c = '\x7b' then
        match skipBlanks rest with
        | '\x7d' :: rest => some (object [], rest)
        | rest => (readMembers fuel rest).map fun (members, rest) => (object members, rest)
      else (readNumber (c :: rest)).map fun (n, rest) => (number n, rest)

/-- One or more items, up to the closing bracket. -/
def readItems : Nat → List Char → Option (List Json × List Char)
  | 0, _ => none
  | fuel + 1, cs => do
    let (item, rest) ← readValue fuel cs
    match skipBlanks rest with
    | ',' :: rest =>
      let (items, rest) ← readItems fuel rest
      some (item :: items, rest)
    | ']' :: rest => some ([item], rest)
    | _ => none

/-- One or more members, up to the closing brace. -/
def readMembers : Nat → List Char → Option (List (Literal × Json) × List Char)
  | 0, _ => none
  | fuel + 1, cs =>
    match skipBlanks cs with
    | '"' :: rest => do
      let (name, rest) ← readLiteral rest
      let rest ← dropColon? rest
      let (value, rest) ← readValue fuel rest
      match skipBlanks rest with
      | ',' :: rest =>
        let (members, rest) ← readMembers fuel rest
        some ((name, value) :: members, rest)
      | '\x7d' :: rest => some ([(name, value)], rest)
      | _ => none
    | _ => none

end

/-- The document that a text is, with nothing but blanks around it. -/
def read? (s : String) : Option Json :=
  let cs := s.toList
  match readValue (2 * cs.length + 2) cs with
  | some (document, rest) => if (skipBlanks rest).isEmpty then some document else none
  | none => none

end EventWire.Json
