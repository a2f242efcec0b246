import SignedNames.Json.Token
import SignedNames.Json.Tree

/-!
# Scanning documents

A text is scanned into its tree. Containers up to the nesting limit become containers of the tree;
deeper ones are only checked for their form, with a list of the brackets that are open.
-/
namespace SignedNames.Json

/-- The nesting up to which a document can be read. -/
def nestingLimit : Nat := 127

namespace Scan

/-- Something of a good form, which is readable if it stands for something. -/
def meaning : Option Tree → Tree
  | some tree => tree
  | none => .unreadable

/-- A value that holds no others, and the text after it. -/
def scalar? (cs : List Char) : Option (Tree × List Char) :=
  match cs with
  | 'n' :: rest => (word? ['u', 'l', 'l'] rest).map (Tree.null, ·)
  | 't' :: rest => (word? ['r', 'u', 'e'] rest).map (Tree.bool true, ·)
  | 'f' :: rest => (word? ['a', 'l', 's', 'e'] rest).map (Tree.bool false, ·)
  | '"' :: rest => (quotedText rest).map fun (s, left) => (meaning (s.map .text), left)
  | '-' :: rest => (unsigned true rest).map fun (n, left) => (meaning (n.map .number), left)
  | _ => (unsigned false cs).map fun (n, left) => (meaning (n.map .number), left)

def key? (cs : List Char) : Option (Option String × List Char) :=
  match skipBlank cs with
  | '"' :: rest => quotedText rest
  | _ => none

def colon? (cs : List Char) : Option (List Char) :=
  match skipBlank cs with
  | ':' :: rest => some rest
  | _ => none

inductive Bracket
  | square
  | curly
deriving DecidableEq

def Bracket.closing : Bracket → Char
  | .square => ']'
  | .curly => '}'

/-- What may come next in a container: its end or a first item, an item, its end or a comma. -/
inductive Place
  | start
  | item
  | next

/-- The text of an item without its key, if the innermost container has keys. -/
def unkeyed? : List Bracket → List Char → Option (List Char)
  | .curly :: _, cs => (key? cs).bind fun (_, rest) => colon? rest
  | _, cs => some cs

/-- The text after the end of all open containers, innermost first. There are at most two steps for
each character. -/
def pass : (steps : Nat) → Place → (opened : List Bracket) → List Char → Option (List Char)
  | _, .next, [], cs => some cs
  | 0, _, _, _ => none
  | _ + 1, .start, [], _ => none
  | steps + 1, .start, b :: outer, cs =>
    match skipBlank cs with
    | [] => none
    | c :: rest =>
      if c = b.closing then pass steps .next outer rest
      else pass steps .item (b :: outer) (c :: rest)
  | steps + 1, .item, opened, cs =>
    match unkeyed? opened cs with
    | none => none
    | some rest =>
      match skipBlank rest with
      | '[' :: rest => pass steps .start (.square :: opened) rest
      | '{' :: rest => pass steps .start (.curly :: opened) rest
      | rest =>
        match scalar? rest with
        | none => none
        | some (_, left) => pass steps .next opened left
  | steps + 1, .next, b :: outer, cs =>
    match skipBlank cs with
    | [] => none
    | c :: rest =>
      if c = ',' then pass steps .item (b :: outer) rest
      else if c = b.closing then pass steps .next outer rest
      else none

/-- A container that is nested too deep, after its opening bracket. -/
def passed (characters : Nat) (b : Bracket) (cs : List Char) : Tree × List Char :=
  match pass (2 * characters) .start [b] cs with
  | some left => (.unreadable, left)
  | none => (.fault, [])

/-- Values with commas between them, up to the closing bracket, and the text after it unless there
is a fault. The scanner of a value is given; each value takes at least one character. -/
def items (value : List Char → Tree × List Char) :
    (characters : Nat) → List Char → List Tree × Option (List Char)
  | 0, _ => ([], none)
  | characters + 1, cs =>
    let (item, rest) := value cs
    if item.whole then
      match skipBlank rest with
      | ',' :: rest =>
        let (more, left) := items value characters rest
        (item :: more, left)
      | ']' :: rest => ([item], some rest)
      | _ => ([item], none)
    else ([item], none)

/-- Members with commas between them, up to the closing brace. A key without a value keeps its
place. -/
def members (value : List Char → Tree × List Char) :
    (characters : Nat) → List Char → List (Option String × Tree) × Option (List Char)
  | 0, _ => ([], none)
  | characters + 1, cs =>
    match key? cs with
    | none => ([], none)
    | some (key, rest) =>
      let (item, rest) := ((colon? rest).map value).getD (.fault, [])
      if item.whole then
        match skipBlank rest with
        | ',' :: rest =>
          let (more, left) := members value characters rest
          ((key, item) :: more, left)
        | '}' :: rest => ([(key, item)], some rest)
        | _ => ([(key, item)], none)
      else ([(key, item)], none)

/-- A value, readable if nested at most `depth` deep, and the text after it. The number of
characters bounds the number of items. -/
def value (characters : Nat) : (depth : Nat) → List Char → Tree × List Char
  | depth, cs =>
    match skipBlank cs with
    | '[' :: rest =>
      match depth with
      | 0 => passed characters .square rest
      | depth + 1 =>
        match skipBlank rest with
        | ']' :: rest => (.array [] true, rest)
        | rest =>
          match items (value characters depth) characters rest with
          | (found, some left) => (.array found true, left)
          | (found, none) => (.array found false, [])
    | '{' :: rest =>
      match depth with
      | 0 => passed characters .curly rest
      | depth + 1 =>
        match skipBlank rest with
        | '}' :: rest => (.object [] true, rest)
        | rest =>
          match members (value characters depth) characters rest with
          | (found, some left) => (.object found true, left)
          | (found, none) => (.object found false, [])
    | cs => (scalar? cs).getD (.fault, [])

end Scan

/-- The tree of a text, and whether nothing but blanks follows the value. -/
def scan (s : String) : Tree × Bool :=
  let cs := s.toList
  let (tree, rest) := Scan.value cs.length nestingLimit cs
  (tree, (Scan.skipBlank rest).isEmpty)

end SignedNames.Json
