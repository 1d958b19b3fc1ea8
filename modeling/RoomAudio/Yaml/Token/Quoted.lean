import RoomAudio.Json.Quoted
import RoomAudio.Yaml.Token.Plain

/-!
# Quoted scalars

A scalar between quotes may run over several lines. Between single quotes a quote is written twice;
between double quotes there are escape sequences and line breaks can be escaped.

## Main definitions

* `Yaml.readSingleQuoted` — a scalar after its opening single quote.
* `Yaml.readDoubleQuoted` — a scalar after its opening double quote.
-/

namespace RoomAudio.Yaml

def singleQuotedFrom (text : List Char) (gap : Folding) :
    List Char → Mark → Option (List Char × Cursor)
  | [], _ => none
  | '\r' :: '\n' :: rest, m => singleQuotedFrom text (gap.lineBreak '\n') rest (m.newline 2)
  | '\'' :: '\'' :: rest, m => singleQuotedFrom ('\'' :: gap.join text) {} rest (m.advance 2)
  | c :: rest, m =>
    if isBreak c then singleQuotedFrom text (gap.lineBreak c) rest (m.newline 1)
    else if isSpacing c then singleQuotedFrom text (gap.space c) rest m.next
    else if c == '\'' then some ((gap.join text).reverse, ⟨rest, m.next⟩)
    else if m.column == 0 && startsMarker (c :: rest) then none
    else singleQuotedFrom (c :: gap.join text) {} rest m.next

def readSingleQuoted (c : Cursor) : Option (List Char × Cursor) :=
  singleQuotedFrom [] {} c.rest c.mark

inductive EscapeState where
  | outside
  | started
  /-- With so many hexadecimal digits still to come, after digits of that value. -/
  | code (missing value : Nat)
  deriving DecidableEq, Repr

/-- The character that an escape sequence of one letter stands for. -/
def escapedChar? (c : Char) : Option Char :=
  if c == '0' then some '\x00'
  else if c == 'a' then some '\x07'
  else if c == 'b' then some '\x08'
  else if c == 't' || c == '\t' then some '\t'
  else if c == 'n' then some '\n'
  else if c == 'v' then some '\x0b'
  else if c == 'f' then some '\x0c'
  else if c == 'r' then some '\r'
  else if c == 'e' then some '\x1b'
  else if c == ' ' || c == '"' || c == '/' || c == '\\' then some c
  else if c == 'N' then some '\u0085'
  else if c == '_' then some '\u00a0'
  else if c == 'L' then some '\u2028'
  else if c == 'P' then some '\u2029'
  else none

/-- How many hexadecimal digits follow the letter of an escape sequence. -/
def codeLength? (c : Char) : Option Nat :=
  if c == 'x' then some 2 else if c == 'u' then some 4 else if c == 'U' then some 8 else none

/-- The character with that code, unless it is a surrogate or too large. -/
def charOfCode? (n : Nat) : Option Char :=
  if (0xD800 ≤ n ∧ n ≤ 0xDFFF) ∨ 0x10FFFF < n then none else some (Char.ofNat n)

/-- An escaped line break: nothing is read for it. -/
def Folding.escaped : Folding := { broken := true }

def doubleQuotedFrom (text : List Char) (gap : Folding) (escape : EscapeState) :
    List Char → Mark → Option (List Char × Cursor)
  | [], _ => none
  | '\r' :: '\n' :: rest, m =>
    match escape with
    | .outside => doubleQuotedFrom text (gap.lineBreak '\n') .outside rest (m.newline 2)
    | .started => doubleQuotedFrom text .escaped .outside rest (m.newline 2)
    | .code _ _ => none
  | c :: rest, m =>
    match escape with
    | .code missing value =>
      match Json.hexValue? c with
      | none => none
      | some digit =>
        let value := 16 * value + digit
        if 1 < missing then
          doubleQuotedFrom text gap (.code (missing - 1) value) rest m.next
        else
          match charOfCode? value with
          | none => none
          | some c => doubleQuotedFrom (c :: text) {} .outside rest m.next
    | .started =>
      if isBreak c then doubleQuotedFrom text .escaped .outside rest (m.newline 1)
      else
        match codeLength? c with
        | some n => doubleQuotedFrom text gap (.code n 0) rest m.next
        | none =>
          match escapedChar? c with
          | none => none
          | some c => doubleQuotedFrom (c :: text) {} .outside rest m.next
    | .outside =>
      if isBreak c then doubleQuotedFrom text (gap.lineBreak c) .outside rest (m.newline 1)
      else if isSpacing c then doubleQuotedFrom text (gap.space c) .outside rest m.next
      else if c == '"' then some ((gap.join text).reverse, ⟨rest, m.next⟩)
      else if m.column == 0 && startsMarker (c :: rest) then none
      else if c == '\\' then doubleQuotedFrom (gap.join text) {} .started rest m.next
      else doubleQuotedFrom (c :: gap.join text) {} .outside rest m.next

def readDoubleQuoted (c : Cursor) : Option (List Char × Cursor) :=
  doubleQuotedFrom [] {} .outside c.rest c.mark

end RoomAudio.Yaml
