import AtomicCss.Json.Basic

/-
  This file defines the lexemes of JSON text.

  Key definitions include:
    * `Json.Lexeme`
    * `Json.scanNumeral`
    * `Json.scanString`
    * `Json.joinSurrogates`
    * `Json.lexemes?`
-/

namespace AtomicCss.Json

------------------------------------------------------------
-- Lexemes
------------------------------------------------------------

/- A bracket, a separator or a value without parts. -/
inductive Lexeme where
  | openArray
  | closeArray
  | openObject
  | closeObject
  | comma
  | colon
  | atom (v : Value)
  | string (text? : Option String)

/- White space between lexemes. -/
def isSpace
    (c : Char) : Bool :=
  c = ' ' || c = '\t' || c = '\n' || c = '\r'

------------------------------------------------------------
-- Numerals
------------------------------------------------------------

/- The value of a decimal digit. -/
def digitValue
    (c : Char) : Nat :=
  c.toNat - '0'.toNat

/- The digits at the front of a text, and the rest. -/
def scanDigits
    (cs : List Char) : List Nat × List Char :=
  ((cs.takeWhile Char.isDigit).map digitValue,
    cs.dropWhile Char.isDigit)

/- The whole part: a zero alone, or digits without one in front. -/
def scanWhole : List Char → Option (List Nat × List Char)
  | '0' :: rest =>
      if (rest.head?.map Char.isDigit).getD false then
        none
      else
        some ([0], rest)
  | cs =>
      match scanDigits cs with
      | ([], _) => none
      | (digits, rest) => some (digits, rest)

/- The fraction, if a point opens one. -/
def scanFraction : List Char → Option (List Nat × List Char)
  | '.' :: rest =>
      match scanDigits rest with
      | ([], _) => none
      | (digits, rest) => some (digits, rest)
  | cs => some ([], cs)

/- The sign of an exponent, which may be left out. -/
def scanSign : List Char → Bool × List Char
  | '+' :: rest => (false, rest)
  | '-' :: rest => (true, rest)
  | cs => (false, cs)

/- The exponent, if a letter opens one. -/
def scanExponent : List Char → Option (Bool × List Nat × List Char)
  | [] => some (false, [], [])
  | c :: rest =>
      if c = 'e' || c = 'E' then
        let (negative, rest) := scanSign rest
        match scanDigits rest with
        | ([], _) => none
        | (digits, rest) => some (negative, digits, rest)
      else
        some (false, [], c :: rest)

/- A numeral without its sign. -/
def scanMagnitude
    (negative : Bool)
    (cs : List Char) : Option (Numeral × List Char) := do
  let (whole, cs) ← scanWhole cs
  let (fraction, cs) ← scanFraction cs
  let (exponentNegative, exponent, cs) ← scanExponent cs
  return (⟨negative, whole, fraction, exponentNegative, exponent⟩, cs)

/- The numeral at the front of a text, and the rest. -/
def scanNumeral : List Char → Option (Numeral × List Char)
  | '-' :: rest => scanMagnitude true rest
  | cs => scanMagnitude false cs

------------------------------------------------------------
-- Strings
------------------------------------------------------------

/- The value of a hexadecimal digit. -/
def hexValue?
    (c : Char) : Option Nat :=
  if c.isDigit then
    some (c.toNat - '0'.toNat)
  else if 'a' ≤ c ∧ c ≤ 'f' then
    some (c.toNat - 'a'.toNat + 10)
  else if 'A' ≤ c ∧ c ≤ 'F' then
    some (c.toNat - 'A'.toNat + 10)
  else
    none

/- The number that four hexadecimal digits denote. -/
def hexWord?
    (a b c d : Char) : Option Nat := do
  let a ← hexValue? a
  let b ← hexValue? b
  let c ← hexValue? c
  let d ← hexValue? d
  return ((a * 16 + b) * 16 + c) * 16 + d

/- The code point that a one-letter escape denotes. -/
def shortEscape? : Char → Option Nat
  | '"' => some 0x22
  | '\\' => some 0x5C
  | '/' => some 0x2F
  | 'b' => some 0x08
  | 'f' => some 0x0C
  | 'n' => some 0x0A
  | 'r' => some 0x0D
  | 't' => some 0x09
  | _ => none

/-
  The code points of a string after its opening quote, and
  the text after its closing one. Surrogates stay apart, and
  the points read so far are kept in reverse.
-/
def scanString
    (points : List Nat) :
    List Char → Option (List Nat × List Char)
  | [] => none
  | '"' :: rest => some (points.reverse, rest)
  | '\\' :: 'u' :: a :: b :: c :: d :: rest =>
      match hexWord? a b c d with
      | some n => scanString (n :: points) rest
      | none => none
  | '\\' :: e :: rest =>
      match shortEscape? e with
      | some n => scanString (n :: points) rest
      | none => none
  | c :: rest =>
      if c.toNat < 0x20 then
        none
      else
        scanString (c.toNat :: points) rest

/- Whether a code point is the first half of a surrogate pair. -/
def isHighSurrogate
    (n : Nat) : Bool :=
  0xD800 ≤ n && n ≤ 0xDBFF

/- Whether a code point is the second half of a surrogate pair. -/
def isLowSurrogate
    (n : Nat) : Bool :=
  0xDC00 ≤ n && n ≤ 0xDFFF

/-
  The characters of a list of code points, surrogates taken
  in pairs. A surrogate without its partner has none. The
  characters found so far are kept in reverse.
-/
def joinSurrogates
    (chars : List Char) : List Nat → Option (List Char)
  | [] => some chars.reverse
  | n :: rest =>
      if isHighSurrogate n then
        match rest with
        | [] => none
        | m :: rest =>
            if isLowSurrogate m then
              let point := 0x10000 + (n - 0xD800) * 0x400 + (m - 0xDC00)
              joinSurrogates (Char.ofNat point :: chars) rest
            else
              none
      else if isLowSurrogate n then
        none
      else
        joinSurrogates (Char.ofNat n :: chars) rest

------------------------------------------------------------
-- Texts
------------------------------------------------------------

/- The lexeme at the front of a text, and the rest. -/
def scanLexeme? : List Char → Option (Lexeme × List Char)
  | '[' :: rest => some (.openArray, rest)
  | ']' :: rest => some (.closeArray, rest)
  | '\x7b' :: rest => some (.openObject, rest)
  | '\x7d' :: rest => some (.closeObject, rest)
  | ',' :: rest => some (.comma, rest)
  | ':' :: rest => some (.colon, rest)
  | 'n' :: 'u' :: 'l' :: 'l' :: rest => some (.atom .null, rest)
  | 't' :: 'r' :: 'u' :: 'e' :: rest => some (.atom (.bool true), rest)
  | 'f' :: 'a' :: 'l' :: 's' :: 'e' :: rest =>
      some (.atom (.bool false), rest)
  | '"' :: rest =>
      (scanString [] rest).map (fun r =>
        (.string ((joinSurrogates [] r.1).map String.ofList), r.2))
  | cs => (scanNumeral cs).map (fun r => (.atom (.number r.1), r.2))

/-
  The lexemes of a text. Each step takes at least one
  character, so the length of the text bounds their number.
-/
def scanAll
    (found : List Lexeme) : Nat → List Char → Option (List Lexeme)
  | 0, _ => none
  | fuel + 1, cs =>
      match cs.dropWhile isSpace with
      | [] => some found.reverse
      | c :: rest =>
          match scanLexeme? (c :: rest) with
          | some (lexeme, rest) => scanAll (lexeme :: found) fuel rest
          | none => none

/- The lexemes of a text, or nothing when it has other parts. -/
def lexemes?
    (text : String) : Option (List Lexeme) :=
  let cs := text.toList
  scanAll [] (cs.length + 1) cs

end AtomicCss.Json
