/-!
# JSON text

A reader of JSON text (RFC 8259) that keeps what a later reading may be strict about: numbers as
they are spelled, and of each string whether its escapes make up a text. `JsonText.read?` accepts
one value with blanks around it and nothing else.
-/

set_option autoImplicit false

namespace DoubleColon

inductive JsonText where
  | null
  | bool (b : Bool)
  | number (spelling : List Char)
  /-- A string; no text, if its escapes leave half of a surrogate pair alone. -/
  | string (text : Option String)
  | array (elements : List JsonText)
  | object (fields : List (Option String × JsonText))

namespace JsonText

def isBlank (c : Char) : Bool := c = ' ' || c = '\n' || c = '\t' || c = '\r'

def skipBlanks (cs : List Char) : List Char := cs.dropWhile isBlank

def hexDigit? (c : Char) : Option Nat :=
  if '0' ≤ c && c ≤ '9' then some (c.toNat - '0'.toNat)
  else if 'a' ≤ c && c ≤ 'f' then some (c.toNat - 'a'.toNat + 10)
  else if 'A' ≤ c && c ≤ 'F' then some (c.toNat - 'A'.toNat + 10)
  else none

def hexUnit? (a b c d : Char) : Option Nat := do
  let a ← hexDigit? a
  let b ← hexDigit? b
  let c ← hexDigit? c
  let d ← hexDigit? d
  return ((a * 16 + b) * 16 + c) * 16 + d

def escaped? : Char → Option Char
  | '"' => some '"'
  | '\\' => some '\\'
  | '/' => some '/'
  | 'b' => some (Char.ofNat 8)
  | 'f' => some (Char.ofNat 12)
  | 'n' => some '\n'
  | 'r' => some '\r'
  | 't' => some '\t'
  | _ => none

inductive Piece where
  | char (c : Char)
  | unit (u : Nat)
  deriving DecidableEq, Repr

def pieces : List Char → Option (List Piece × List Char)
  | [] => none
  | '"' :: rest => some ([], rest)
  | '\\' :: 'u' :: a :: b :: c :: d :: rest => do
      let u ← hexUnit? a b c d
      let (ps, rest) ← pieces rest
      return (.unit u :: ps, rest)
  | '\\' :: c :: rest => do
      let e ← escaped? c
      let (ps, rest) ← pieces rest
      return (.char e :: ps, rest)
  | c :: rest =>
      if c.toNat < 32 || c = '\\' then none
      else do
        let (ps, rest) ← pieces rest
        return (.char c :: ps, rest)

def isLeading (u : Nat) : Bool := 0xD800 ≤ u && u ≤ 0xDBFF

def isTrailing (u : Nat) : Bool := 0xDC00 ≤ u && u ≤ 0xDFFF

/-- The text of some pieces. A leading surrogate must be followed by a trailing one. -/
def decode : List Piece → Option (List Char)
  | [] => some []
  | .char c :: rest => (decode rest).map (c :: ·)
  | .unit u :: .unit v :: rest =>
      if isLeading u then
        if isTrailing v then
          (decode rest).map (Char.ofNat (0x10000 + (u - 0xD800) * 0x400 + (v - 0xDC00)) :: ·)
        else none
      else if isTrailing u then none
      else (decode (.unit v :: rest)).map (Char.ofNat u :: ·)
  | .unit u :: rest =>
      if isLeading u || isTrailing u then none else (decode rest).map (Char.ofNat u :: ·)

def readString (cs : List Char) : Option (Option String × List Char) :=
  (pieces cs).map fun (ps, rest) => ((decode ps).map String.ofList, rest)

def digits (cs : List Char) : List Char × List Char :=
  (cs.takeWhile Char.isDigit, cs.dropWhile Char.isDigit)

def digits? (cs : List Char) : Option (List Char × List Char) :=
  match digits cs with
  | ([], _) => none
  | found => some found

def integerPart (cs : List Char) : Option (List Char × List Char) :=
  match digits cs with
  | ([], _) => none
  | (['0'], rest) => some (['0'], rest)
  | ('0' :: _, _) => none
  | found => some found

def fractionPart : List Char → Option (List Char × List Char)
  | '.' :: cs => (digits? cs).map fun (ds, rest) => ('.' :: ds, rest)
  | cs => some ([], cs)

def exponentPart : List Char → Option (List Char × List Char)
  | c :: cs =>
      if c = 'e' || c = 'E' then
        match cs with
        | s :: cs' =>
            if s = '+' || s = '-' then
              (digits? cs').map fun (ds, rest) => (c :: s :: ds, rest)
            else (digits? cs).map fun (ds, rest) => (c :: ds, rest)
        | [] => none
      else some ([], c :: cs)
  | [] => some ([], [])

def readUnsigned (cs : List Char) : Option (List Char × List Char) := do
  let (whole, cs) ← integerPart cs
  let (fraction, cs) ← fractionPart cs
  let (exponent, cs) ← exponentPart cs
  return (whole ++ fraction ++ exponent, cs)

def readNumber : List Char → Option (List Char × List Char)
  | '-' :: cs => (readUnsigned cs).map fun (ds, rest) => ('-' :: ds, rest)
  | cs => readUnsigned cs

def afterWord : List Char → List Char → Option (List Char)
  | [], cs => some cs
  | w :: ws, c :: cs => if w = c then afterWord ws cs else none
  | _ :: _, [] => none

mutual

def readValue : Nat → List Char → Option (JsonText × List Char)
  | 0, _ => none
  | n + 1, cs => match skipBlanks cs with
    | 'n' :: cs => (afterWord "ull".toList cs).map fun rest => (.null, rest)
    | 't' :: cs => (afterWord "rue".toList cs).map fun rest => (.bool true, rest)
    | 'f' :: cs => (afterWord "alse".toList cs).map fun rest => (.bool false, rest)
    | '"' :: cs => (readString cs).map fun (s, rest) => (.string s, rest)
    | '[' :: cs => match skipBlanks cs with
      | ']' :: rest => some (.array [], rest)
      | cs => (readElements n cs).map fun (es, rest) => (.array es, rest)
    | '\x7b' :: cs => match skipBlanks cs with
      | '\x7d' :: rest => some (.object [], rest)
      | cs => (readFields n cs).map fun (fs, rest) => (.object fs, rest)
    | cs => (readNumber cs).map fun (s, rest) => (.number s, rest)

def readElements : Nat → List Char → Option (List JsonText × List Char)
  | 0, _ => none
  | n + 1, cs => match readValue n cs with
    | none => none
    | some (e, cs) => match skipBlanks cs with
      | ']' :: rest => some ([e], rest)
      | ',' :: cs => (readElements n cs).map fun (es, rest) => (e :: es, rest)
      | _ => none

def readFields : Nat → List Char → Option (List (Option String × JsonText) × List Char)
  | 0, _ => none
  | n + 1, cs => match readField n (skipBlanks cs) with
    | none => none
    | some (f, cs) => match skipBlanks cs with
      | '\x7d' :: rest => some ([f], rest)
      | ',' :: cs => (readFields n cs).map fun (fs, rest) => (f :: fs, rest)
      | _ => none

def readField : Nat → List Char → Option ((Option String × JsonText) × List Char)
  | 0, _ => none
  | n + 1, cs => match cs with
    | '"' :: cs => match readString cs with
      | none => none
      | some (name, cs) => match skipBlanks cs with
        | ':' :: cs => (readValue n cs).map fun (v, rest) => ((name, v), rest)
        | _ => none
    | _ => none

end

def read? (text : String) : Option JsonText :=
  let cs := text.toList
  match readValue (3 * cs.length + 3) cs with
  | some (v, rest) => if skipBlanks rest = [] then some v else none
  | none => none

def nat? : JsonText → Option Nat
  | .number cs =>
      if cs.all Char.isDigit then some (cs.foldl (fun n c => n * 10 + (c.toNat - '0'.toNat)) 0)
      else none
  | _ => none

def bool? : JsonText → Option Bool
  | .bool b => some b
  | _ => none

end JsonText

end DoubleColon
