import SignedNames.Json.Value

/-!
# Parts of a document

What a text of a document is scanned for: fixed words, quoted texts and numbers. Form and meaning
are kept apart: a quoted text may hold half of a surrogate pair, and a number may be out of range.
Both have a good form, and stand for nothing.
-/
namespace SignedNames.Json.Scan

def isBlank (c : Char) : Bool := c = ' ' || c = '\n' || c = '\t' || c = '\r'

def skipBlank (cs : List Char) : List Char := cs.dropWhile isBlank

def word? : List Char → List Char → Option (List Char)
  | [], rest => some rest
  | c :: word, d :: rest => if c = d then word? word rest else none
  | _ :: _, [] => none

def hexValue? (c : Char) : Option Nat :=
  if '0' ≤ c ∧ c ≤ '9' then some (c.toNat - 48)
  else if 'a' ≤ c ∧ c ≤ 'f' then some (c.toNat - 87)
  else if 'A' ≤ c ∧ c ≤ 'F' then some (c.toNat - 55)
  else none

/-- The code unit that four hexadecimal digits name. -/
def unit? (a b c d : Char) : Option Nat :=
  match hexValue? a, hexValue? b, hexValue? c, hexValue? d with
  | some a, some b, some c, some d => some (((a * 16 + b) * 16 + c) * 16 + d)
  | _, _, _, _ => none

def IsHighSurrogate (n : Nat) : Prop := 0xd800 ≤ n ∧ n < 0xdc00

def IsLowSurrogate (n : Nat) : Prop := 0xdc00 ≤ n ∧ n < 0xe000

instance (n : Nat) : Decidable (IsHighSurrogate n) := inferInstanceAs (Decidable (_ ∧ _))

instance (n : Nat) : Decidable (IsLowSurrogate n) := inferInstanceAs (Decidable (_ ∧ _))

def escaped? (c : Char) : Option Char :=
  match c with
  | '"' => some '"'
  | '\\' => some '\\'
  | '/' => some '/'
  | 'b' => some '\x08'
  | 'f' => some '\x0c'
  | 'n' => some '\n'
  | 'r' => some '\r'
  | 't' => some '\t'
  | _ => none

/-- A part of a quoted text: a character, or a code unit written by its number. -/
inductive Piece
  | char (c : Char)
  | unit (n : Nat)

/-- The pieces up to the closing quote, and the text after it. -/
def quotedPieces : List Char → Option (List Piece × List Char)
  | [] => none
  | '"' :: rest => some ([], rest)
  | '\\' :: 'u' :: a :: b :: c :: d :: rest =>
    match unit? a b c d with
    | none => none
    | some n => (quotedPieces rest).map fun (pieces, left) => (.unit n :: pieces, left)
  | '\\' :: c :: rest =>
    match escaped? c with
    | none => none
    | some c => (quotedPieces rest).map fun (pieces, left) => (.char c :: pieces, left)
  | c :: rest =>
    if c = '\\' ∨ c.toNat < 0x20 then none
    else (quotedPieces rest).map fun (pieces, left) => (.char c :: pieces, left)

def pairedChar (high low : Nat) : Char :=
  Char.ofNat (0x10000 + (high - 0xd800) * 0x400 + (low - 0xdc00))

/-- The characters that pieces stand for. Surrogates must come in pairs. -/
def characters? : List Piece → Option (List Char)
  | [] => some []
  | .char c :: rest => (characters? rest).map (c :: ·)
  | .unit n :: rest =>
    if IsHighSurrogate n then
      match rest with
      | .unit low :: rest =>
        if IsLowSurrogate low then (characters? rest).map (pairedChar n low :: ·) else none
      | _ => none
    else if IsLowSurrogate n then none
    else (characters? rest).map (Char.ofNat n :: ·)

/-- The text up to the closing quote, if its pieces stand for one, and what comes after it. -/
def quotedText (cs : List Char) : Option (Option String × List Char) :=
  (quotedPieces cs).map fun (pieces, left) => ((characters? pieces).map String.ofList, left)

def isDigit (c : Char) : Bool := '0' ≤ c && c ≤ '9'

def digits (cs : List Char) : List Nat × List Char :=
  ((cs.takeWhile isDigit).map fun c => c.toNat - 48, cs.dropWhile isDigit)

/-- Digits appended to a number as long as it stays below `2 ^ 64`, and those left over. -/
def appendDigits : Nat → List Nat → Nat × List Nat
  | n, [] => (n, [])
  | n, d :: rest =>
    if n * 10 + d < UInt64.size then appendDigits (n * 10 + d) rest else (n, d :: rest)

/-- The digits of a fraction, none where there is no point; a point needs a digit after it. -/
def fraction? : List Char → Option (Option (List Nat) × List Char)
  | '.' :: rest =>
    match digits rest with
    | ([], _) => none
    | (ds, rest) => some (some ds, rest)
  | cs => some (none, cs)

/-- The value of the digits of an exponent; there must be one. -/
def exponentDigits? (cs : List Char) : Option (Nat × List Char) :=
  match digits cs with
  | ([], _) => none
  | (ds, rest) => some (ds.foldl (fun n d => n * 10 + d) 0, rest)

/-- An exponent, none where there is no mark for it. -/
def exponent? : List Char → Option (Option Int × List Char)
  | c :: rest =>
    if c = 'e' ∨ c = 'E' then
      match rest with
      | '-' :: rest => (exponentDigits? rest).map fun (n, left) => (some (-Int.ofNat n), left)
      | '+' :: rest => (exponentDigits? rest).map fun (n, left) => (some (Int.ofNat n), left)
      | _ => (exponentDigits? rest).map fun (n, left) => (some (Int.ofNat n), left)
    else some (none, c :: rest)
  | [] => some (none, [])

/-- The number written with these digits. Digits beyond `2 ^ 64` only count as places. A whole
number outside the range of 64-bit integers is rounded, and so is a negative zero. -/
def number? (negative : Bool) (whole : List Nat) (fraction : Option (List Nat))
    (exponent : Option Int) : Option Number :=
  let (significand, left) := appendDigits 0 whole
  let rounded (significand : Nat) (exponent : Int) :=
    (Decimal.bitsOfScientific? negative (UInt64.ofNat significand) exponent).map Number.float
  match fraction, exponent with
  | none, none =>
    if left ≠ [] then rounded significand left.length
    else if negative then
      if 0 < significand ∧ significand ≤ 0x8000000000000000 then
        some (.negative (UInt64.ofNat significand))
      else rounded significand 0
    else some (.natural (UInt64.ofNat significand))
  | _, _ =>
    let places := fraction.getD []
    let (significand, dropped) := appendDigits significand places
    rounded significand
      (exponent.getD 0 + Int.ofNat left.length - Int.ofNat (places.length - dropped.length))

/-- A number without its sign, if it is in range, and the text after it. A zero in front stands
alone. -/
def unsigned (negative : Bool) (cs : List Char) : Option (Option Number × List Char) :=
  match digits cs with
  | ([], _) => none
  | (whole, rest) =>
    if whole.head? = some 0 ∧ whole ≠ [0] then none
    else
      match fraction? rest with
      | none => none
      | some (fraction, rest) =>
        (exponent? rest).map fun (exponent, left) =>
          (number? negative whole fraction exponent, left)

end SignedNames.Json.Scan
