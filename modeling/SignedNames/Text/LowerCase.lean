import SignedNames.Text.CaseTable

/-!
# Lower case

The full lower-case mapping of a text, without regard to language. Two characters do not simply go
to their partner: a capital I with a dot becomes an i and a combining dot, and a capital sigma takes
its final form at the end of a word. Names and namespaces are compared in this form.
-/
namespace SignedNames.Text

def inRanges (ranges : List (Nat × Nat)) (n : Nat) : Bool :=
  match ranges.find? (fun range => n ≤ range.2) with
  | some range => range.1 ≤ n
  | none => false

def isCased (c : Char) : Bool := inRanges casedRanges c.toNat

def isCaseIgnorable (c : Char) : Bool := inRanges caseIgnorableRanges c.toNat

/-- The lower-case partner of a code point, or itself. -/
def lowerCode (n : Nat) : Nat :=
  match lowerRuns.find? (fun run => n ≤ run.last) with
  | some run =>
    if run.first ≤ n ∧ (n - run.first) % run.stride = 0 then run.image + (n - run.first) else n
  | none => n

def capitalDottedI : Char := '\u0130'
def combiningDot : Char := '\u0307'
def capitalSigma : Char := '\u03a3'
def smallSigma : Char := '\u03c3'
def finalSigma : Char := '\u03c2'

/-- The mapping of a character other than a capital sigma. -/
def lowerChar (c : Char) : List Char :=
  if c = capitalDottedI then ['i', combiningDot] else [Char.ofNat (lowerCode c.toNat)]

/-- Whether a cased character comes first, case-ignorable ones left out. -/
def startsCased (cs : List Char) : Bool :=
  match cs.dropWhile isCaseIgnorable with
  | c :: _ => isCased c
  | [] => false

/-- A capital sigma is final after a cased character and before none. -/
def lowerSigma (before after : List Char) : Char :=
  if startsCased before && !startsCased after then finalSigma else smallSigma

/-- The mapping of the rest of a text; the characters before it are given nearest first. -/
def lowerAfter : (before : List Char) → List Char → List Char
  | _, [] => []
  | before, c :: after =>
    (if c = capitalSigma then [lowerSigma before after] else lowerChar c)
      ++ lowerAfter (c :: before) after

def lowerChars (cs : List Char) : List Char := lowerAfter [] cs

def lower (s : String) : String := String.ofList (lowerChars s.toList)

end SignedNames.Text
