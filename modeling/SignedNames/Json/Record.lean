import SignedNames.Fault
import SignedNames.Json.Scan

/-!
# Reading documents

Readers walk a scanned tree in the order of the text, so that the first thing wrong is the fault
they report. A record is read in two passes: the first checks the members in order, each known
member once and of its kind; the second looks the members up by name, in the order of their
declaration.
-/
namespace SignedNames.Json

abbrev Reader (α : Type) := Tree → Except DocumentFault α

namespace Reader

def text : Reader String
  | .text s => .ok s
  | _ => .error .wrongKind

def bool : Reader Bool
  | .bool b => .ok b
  | _ => .error .wrongKind

def word : Reader UInt64
  | .number (.natural n) => .ok n
  | _ => .error .wrongKind

def below (bound : Nat) : Reader Nat
  | .number (.natural n) => if n.toNat < bound then .ok n.toNat else .error .wrongKind
  | _ => .error .wrongKind

/-- A text with a form of its own. -/
def parsed {α ε : Type} (parse : String → Except ε α) (cause : ε → FormatFault) : Reader α :=
  fun tree =>
    match text tree with
    | .error fault => .error fault
    | .ok s => (parse s).mapError fun e => .malformed (cause e)

def cid : Reader Cid := parsed Cid.parse .cid
def address : Reader Address := parsed Address.parse .address
def nonce : Reader Nonce := parsed Nonce.parse .nonce
def signature : Reader Signature := parsed Signature.parse .signature

def orNull {α : Type} (read : Reader α) : Reader (Option α)
  | .null => .ok none
  | tree => (read tree).map some

def list {α : Type} (read : Reader α) : Reader (List α)
  | .array items closed =>
    match items.mapM read with
    | .error fault => .error fault
    | .ok found => if closed then .ok found else .error .garbled
  | _ => .error .wrongKind

/-- A member with a readable key. -/
def member {α : Type} (read : Reader α) : Option String × Tree → Except DocumentFault (String × α)
  | (none, _) => .error .garbled
  | (some key, tree) => (read tree).map (key, ·)

/-- An object as a map; of two members with one key the later counts. -/
def nameMap {α : Type} (read : Reader α) : Reader (NameMap α)
  | .object members closed =>
    match members.mapM (member read) with
    | .error fault => .error fault
    | .ok found => if closed then .ok (NameMap.ofList found) else .error .garbled
  | _ => .error .wrongKind

/-- Any value of a good form, readable or not. -/
def ignored : Reader Unit := fun tree => if tree.whole then .ok () else .error .garbled

/-- Any value that is readable throughout. -/
def value : Reader Value := fun tree =>
  match tree.value? with
  | some v => .ok v
  | none => .error .garbled

def check {α : Type} (read : Reader α) : Reader Unit := fun tree => (read tree).map fun _ => ()

end Reader

/-- A declared member: its name, another name it is known by, and the check of its value. -/
structure Field where
  name : String
  synonym : Option String
  check : Reader Unit

def Field.of {α : Type} (name : String) (read : Reader α) : Field :=
  ⟨name, none, read.check⟩

def Field.Names (f : Field) (key : String) : Prop := key = f.name ∨ f.synonym = some key

instance (f : Field) (key : String) : Decidable (f.Names key) := inferInstanceAs (Decidable (_ ∨ _))

/-- The members of a record under their declared names, followed by the others. -/
structure Record where
  known : List (String × Tree)
  others : List (String × Tree)
  /-- Whether the record was written as a list, which leaves no names to report. -/
  positional : Bool

namespace Record

/-- Checks members in order and sorts them into known ones and others. -/
def checkMembers (fields : List Field) (other : Reader Unit) (seen : List String) :
    List (Option String × Tree) →
      Except DocumentFault (List (String × Tree) × List (String × Tree))
  | [] => .ok ([], [])
  | (none, _) :: _ => .error .garbled
  | (some key, tree) :: rest =>
    match fields.find? fun f => decide (f.Names key) with
    | some f =>
      if f.name ∈ seen then .error (.duplicateField f.name)
      else do
        f.check tree
        let (known, others) ← checkMembers fields other (f.name :: seen) rest
        return ((f.name, tree) :: known, others)
    | none => do
      other tree
      let (known, others) ← checkMembers fields other seen rest
      return (known, (key, tree) :: others)

/-- The record that an object's members make up, with a check for the members without a
declaration. -/
def ofMembers (fields : List Field) (other : Reader Unit) (members : List (Option String × Tree))
    (closed : Bool) : Except DocumentFault Record := do
  let (known, others) ← checkMembers fields other [] members
  if closed then return ⟨known, others, false⟩ else .error .garbled

/-- A record that keeps its other members, and so must be able to read them. It can only be written
as an object. -/
def readOpen (fields : List Field) : Reader Record
  | .object members closed => ofMembers fields Reader.value.check members closed
  | _ => .error .wrongKind

/-- A record that ignores other members, readable or not. It is written as an object, or as a list
of its members in the order of declaration. -/
def read (fields : List Field) : Reader Record
  | .object members closed => ofMembers fields Reader.ignored members closed
  | .array items closed => do
    let known := (fields.map (·.name)).zip items
    (fields.zip items).forM fun (f, item) => f.check item
    if !closed then .error .garbled
    else if fields.length < items.length then .error .wrongCount
    else return ⟨known, [], true⟩
  | _ => .error .wrongKind

def rest (r : Record) (fields : List Field) : Except DocumentFault Record :=
  ofMembers fields Reader.ignored (r.others.map fun m => (some m.1, m.2)) true

def required {α : Type} (r : Record) (name : String) (read : Reader α) :
    Except DocumentFault α :=
  match r.known.lookup name with
  | some tree => read tree
  | none => .error (if r.positional then .wrongCount else .missingField name)

def optional {α : Type} (r : Record) (name : String) (read : Reader α) (fallback : α) :
    Except DocumentFault α :=
  match r.known.lookup name with
  | some tree => read tree
  | none => .ok fallback

end Record

/-- Reads a whole text. What follows the value is looked at last. -/
def parse {α : Type} (read : Reader α) (s : String) : Except DocumentFault α :=
  let (tree, clean) := scan s
  match read tree with
  | .error fault => .error fault
  | .ok a => if clean then .ok a else .error .garbled

end SignedNames.Json
