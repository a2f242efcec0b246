import SignedNames.Json.Value
import SignedNames.NameMap

/-!
# Scanned documents

The tree of what stands in a text before its first fault. A container that the fault lies in is
marked as not whole, so that a reader which walks the tree in the order of the text meets the fault
where the text has it, after everything that stands before.

What has a good form and stands for nothing is unreadable. It is a fault for whoever reads it, and
none for whoever passes over it.
-/
namespace SignedNames.Json

inductive Tree
  | null
  | bool (b : Bool)
  | number (n : Number)
  | text (s : String)
  | array (items : List Tree) (closed : Bool)
  /-- A key that stands for no text is none. -/
  | object (members : List (Option String × Tree)) (closed : Bool)
  /-- A text with half of a surrogate pair, a number out of range, a container nested too deep. -/
  | unreadable
  | fault

/-- Whether scanning got to the end of the value. -/
def Tree.whole : Tree → Bool
  | .array _ closed => closed
  | .object _ closed => closed
  | .fault => false
  | _ => true

mutual

/-- The value of a tree without faults, if all of it is readable. Objects list their members by key;
of two members with one key the later counts. -/
def Tree.value? : Tree → Option Value
  | .null => some .null
  | .bool b => some (.bool b)
  | .number n => some (.number n)
  | .text s => some (.text s)
  | .array items closed => if closed then (itemValues? items).map .array else none
  | .object members closed =>
    if closed then
      (memberValues? members).map fun found => .object (NameMap.ofList found).entries
    else none
  | .unreadable => none
  | .fault => none

def itemValues? : List Tree → Option (List Value)
  | [] => some []
  | item :: rest =>
    match item.value?, itemValues? rest with
    | some v, some vs => some (v :: vs)
    | _, _ => none

def memberValues? : List (Option String × Tree) → Option (List (String × Value))
  | [] => some []
  | (key, tree) :: rest =>
    match key, tree.value?, memberValues? rest with
    | some key, some v, some vs => some ((key, v) :: vs)
    | _, _, _ => none

end

end SignedNames.Json
