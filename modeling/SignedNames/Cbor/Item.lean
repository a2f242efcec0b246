import SignedNames.Bytes.Basic

/-!
# Binary items

Reads one item of the concise binary object representation and returns the bytes after it. Numbers
and lengths may be written wider than needed, and strings, lists and maps may be of indefinite
length. A big number of at most sixteen bytes counts as a number.
-/
namespace SignedNames.Cbor

inductive Item
  | integer (n : Int)
  | bytes (bs : Bytes)
  | text (s : String)
  | bool (b : Bool)
  | null
  | float (width : Nat) (bits : Nat)
  | array (items : List Item)
  | map (entries : List (Item × Item))
  | tag (number : Nat) (item : Item)

/-- How many lists, maps and tags may be nested. -/
def nestingLimit : Nat := 256

/-- The kind of an item and the number that goes with it. The number is missing for indefinite
lengths and for the mark that ends them. -/
structure Head where
  major : Nat
  /-- How the number is written: in the byte itself below 24, else in the bytes that follow. -/
  form : Nat
  argument : Option Nat

def Head.read (bs : Bytes) : Option (Head × Bytes) :=
  match bs with
  | [] => none
  | first :: rest =>
    let major := first.toNat / 32
    let form := first.toNat % 32
    let following (width : Nat) :=
      (splitExact width rest).map fun (digits, left) =>
        (Head.mk major form (some (BigEndian.value digits)), left)
    if form < 24 then some (⟨major, form, some form⟩, rest)
    else if form = 24 then following 1
    else if form = 25 then following 2
    else if form = 26 then following 4
    else if form = 27 then following 8
    else if form = 31 then some (⟨major, form, none⟩, rest)
    else none

def endMark : UInt8 := 0xff

/-- The pieces of a string of indefinite length, which may lie in nested strings of indefinite
length, `unended` of which have not come to their end. -/
def pieces (major : Nat) :
    (characters : Nat) → (unended : Nat) → Bytes → Option (List Bytes × Bytes)
  | 0, _, _ => none
  | characters + 1, unended, bs =>
    match Head.read bs with
    | none => none
    | some (head, rest) =>
      if head.major = 7 ∧ head.form = 31 then
        if unended ≤ 1 then some ([], rest) else pieces major characters (unended - 1) rest
      else if head.major = major then
        match head.argument with
        | none => pieces major characters (unended + 1) rest
        | some length =>
          match splitExact length rest with
          | none => none
          | some (piece, rest) =>
            (pieces major characters unended rest).map fun (more, left) => (piece :: more, left)
      else none

/-- The pieces of a string of either sort: a definite length makes one piece. -/
def stringPieces (head : Head) (rest : Bytes) : Option (List Bytes × Bytes) :=
  match head.argument with
  | some length => (splitExact length rest).map fun (piece, left) => ([piece], left)
  | none => pieces head.major rest.length 1 rest

/-- A given number of things one after the other. -/
def times {α : Type} (read : Bytes → Option (α × Bytes)) : Nat → Bytes → Option (List α × Bytes)
  | 0, bs => some ([], bs)
  | n + 1, bs =>
    match read bs with
    | none => none
    | some (a, rest) => (times read n rest).map fun (more, left) => (a :: more, left)

/-- Things one after the other up to the mark that ends them; each takes at least one byte. -/
def untilEnd {α : Type} (read : Bytes → Option (α × Bytes)) :
    (characters : Nat) → Bytes → Option (List α × Bytes)
  | 0, _ => none
  | characters + 1, bs =>
    if bs.head? = some endMark then some ([], bs.tail)
    else
      match read bs with
      | none => none
      | some (a, rest) =>
        (untilEnd read characters rest).map fun (more, left) => (a :: more, left)

/-- The things that a head announces. -/
def announced {α : Type} (read : Bytes → Option (α × Bytes)) (head : Head) (rest : Bytes) :
    Option (List α × Bytes) :=
  match head.argument with
  | some n => times read n rest
  | none => untilEnd read rest.length rest

def pair (read : Bytes → Option (Item × Bytes)) (bs : Bytes) : Option ((Item × Item) × Bytes) :=
  match read bs with
  | none => none
  | some (key, rest) => (read rest).map fun (value, left) => ((key, value), left)

/-- The magnitude of a big number, where a tag for one is followed by a string of at most sixteen
bytes. -/
def bigMagnitude? (number : Nat) (rest : Bytes) : Option (Option (Nat × Bytes)) :=
  if number = 2 ∨ number = 3 then
    match Head.read rest with
    | none => none
    | some (head, digits) =>
      match head.argument with
      | some length =>
        if head.major = 2 ∧ length ≤ 16 then
          (splitExact length digits).map fun (magnitude, left) =>
            some (BigEndian.value magnitude, left)
        else some none
      | none => some none
  else some none

/-- A simple value: truth values, and the two that stand for nothing. -/
def simple? (n : Nat) : Option Item :=
  if n = 20 then some (.bool false)
  else if n = 21 then some (.bool true)
  else if n = 22 ∨ n = 23 then some .null
  else none

/-- An item nested at most `depth` deep. -/
def Item.readWithin : (depth : Nat) → Bytes → Option (Item × Bytes)
  | depth, bs =>
    match Head.read bs with
    | none => none
    | some (head, rest) =>
      match head.major, head.argument with
      | 0, some n => some (.integer n, rest)
      | 1, some n => some (.integer (-1 - Int.ofNat n), rest)
      | 2, _ => (stringPieces head rest).map fun (parts, left) => (.bytes parts.flatten, left)
      | 3, _ =>
        match stringPieces head rest with
        | none => none
        | some (parts, left) =>
          (parts.mapM Text.ofUtf8?).map fun texts => (.text (String.join texts), left)
      | 4, _ =>
        match depth with
        | 0 => none
        | depth + 1 =>
          (announced (Item.readWithin depth) head rest).map fun (items, left) =>
            (.array items, left)
      | 5, _ =>
        match depth with
        | 0 => none
        | depth + 1 =>
          (announced (pair (Item.readWithin depth)) head rest).map fun (entries, left) =>
            (.map entries, left)
      | 6, some number =>
        match bigMagnitude? number rest with
        | none => none
        | some (some (magnitude, left)) =>
          if number = 2 then some (.integer magnitude, left)
          else if magnitude < 1 <<< 127 then some (.integer (-1 - Int.ofNat magnitude), left)
          else none
        | some none =>
          match depth with
          | 0 => none
          | depth + 1 =>
            (Item.readWithin depth rest).map fun (item, left) => (.tag number item, left)
      | 7, some n =>
        if head.form ≤ 24 then (simple? n).map (·, rest)
        else some (.float (1 <<< (head.form - 24)) n, rest)
      | _, _ => none

/-- The first item of some bytes, and what follows it. -/
def Item.read (bs : Bytes) : Option (Item × Bytes) := Item.readWithin nestingLimit bs

end SignedNames.Cbor
