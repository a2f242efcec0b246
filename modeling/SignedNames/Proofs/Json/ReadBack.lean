import Mathlib
import SignedNames.Json.Scan
import SignedNames.Proofs.Json.Numbers

/-!
# Documents read back

The text of a document without floating-point numbers is scanned into the tree of the document,
whatever may follow it in a text, as long as it is not nested too deep.
-/
namespace SignedNames.Json

namespace Scan

def pieceOf (c : Char) : Piece :=
  if c.toNat < 0x20 ∧ c ∉ ['\x08', '\t', '\n', '\x0c', '\r'] then .unit c.toNat else .char c

lemma unit?_controlEscape : ∀ n < 0x20,
    unit? '0' '0' (Nat.digitChar (n / 16)) (Nat.digitChar (n % 16)) = some n := by
  decide

lemma quotedPieces_quotedChar (c : Char) (rest : List Char) :
    quotedPieces (quotedChar c ++ rest) =
      (quotedPieces rest).map fun p => (pieceOf c :: p.1, p.2) := by
  unfold quotedChar
  split
  · subst_vars; rfl
  split
  · subst_vars; rfl
  split
  · subst_vars; rfl
  split
  · subst_vars; rfl
  split
  · subst_vars; rfl
  split
  · subst_vars; rfl
  split
  · subst_vars; rfl
  split
  · rename_i hcontrol
    rw [pieceOf, if_pos ⟨hcontrol, by simp [*]⟩]
    simp only [controlEscape, List.cons_append, List.nil_append, quotedPieces,
      unit?_controlEscape _ hcontrol]
  · rename_i hquote hslash _ _ _ _ _ hcontrol
    rw [pieceOf, if_neg fun h => hcontrol h.1, List.singleton_append, quotedPieces.eq_def]
    split <;> simp_all

lemma characters?_pieces (cs : List Char) : characters? (cs.map pieceOf) = some cs := by
  induction cs with
  | nil => rfl
  | cons c cs ih =>
    rw [List.map_cons, pieceOf]
    split
    · rename_i hcontrol
      have hhigh : ¬ IsHighSurrogate c.toNat := fun h => by
        have := h.1
        omega
      have hlow : ¬ IsLowSurrogate c.toNat := fun h => by
        have := h.1
        omega
      rw [characters?.eq_def]
      simp only [if_neg hhigh, if_neg hlow, ih, Char.ofNat_toNat, Option.map_some]
    · rw [characters?, ih]
      rfl

lemma quotedPieces_flatMap (cs rest : List Char) :
    quotedPieces (cs.flatMap quotedChar ++ '"' :: rest) = some (cs.map pieceOf, rest) := by
  induction cs with
  | nil => rfl
  | cons c cs ih =>
    rw [List.flatMap_cons, List.append_assoc, quotedPieces_quotedChar, ih]
    rfl

theorem quotedText_quoted (s : String) (rest : List Char) :
    quotedText (s.toList.flatMap quotedChar ++ '"' :: rest) = some (some s, rest) := by
  rw [quotedText, quotedPieces_flatMap]
  change some ((characters? _).map String.ofList, rest) = _
  rw [characters?_pieces, Option.map_some, String.ofList_toList]

end Scan

namespace Value

mutual

def tree : Value → Tree
  | .null => .null
  | .bool b => .bool b
  | .number n => .number n
  | .text s => .text s
  | .array items => .array (itemTrees items) true
  | .object members => .object (memberTrees members) true

def itemTrees : List Value → List Tree
  | [] => []
  | item :: rest => item.tree :: itemTrees rest

def memberTrees : List (String × Value) → List (Option String × Tree)
  | [] => []
  | (key, value) :: rest => (some key, value.tree) :: memberTrees rest

end

/-- A value without floating-point numbers that is nested at most so deep. -/
inductive Within : Nat → Value → Prop
  | null (depth : Nat) : Within depth .null
  | bool (depth : Nat) (b : Bool) : Within depth (.bool b)
  | natural (depth : Nat) (n : UInt64) : Within depth (.number (.natural n))
  | negative (depth : Nat) {magnitude : UInt64} (h : Scan.Negative magnitude) :
    Within depth (.number (.negative magnitude))
  | text (depth : Nat) (s : String) : Within depth (.text s)
  | array {depth : Nat} {items : List Value} (h : ∀ v ∈ items, Within depth v) :
    Within (depth + 1) (.array items)
  | object {depth : Nat} {members : List (String × Value)} (h : ∀ m ∈ members, Within depth m.2) :
    Within (depth + 1) (.object members)

lemma natural_chars (n : UInt64) :
    ∃ c cs, (Value.number (.natural n)).chars = c :: cs ∧ Scan.isDigit c = true := by
  rw [chars, Number.chars, Scan.toList_toString]
  cases hdigits : Nat.toDigits 10 n.toNat with
  | nil => exact absurd hdigits Nat.toDigits_ne_nil
  | cons c cs =>
    have hmem : c ∈ Nat.toDigits 10 n.toNat := by
      rw [hdigits]
      exact List.mem_cons_self ..
    exact ⟨c, cs, rfl, Scan.isDigit_of_mem_toDigits hmem⟩

lemma whole_tree (v : Value) : v.tree.whole = true := by
  cases v <;> simp [tree, Tree.whole]

lemma Within.head_chars {depth : Nat} {v : Value} (h : v.Within depth) :
    ∃ c cs, v.chars = c :: cs ∧ Scan.isBlank c = false ∧ c ≠ ']' := by
  cases h with
  | null => exact ⟨_, _, by rw [chars], by decide, by decide⟩
  | bool _ b => cases b <;> exact ⟨_, _, by rw [chars], by decide, by decide⟩
  | natural _ n =>
    obtain ⟨c, cs, hcs, hc⟩ := natural_chars n
    exact ⟨c, cs, hcs, Scan.isBlank_of_isDigit hc, Scan.ne_of_isDigit hc (by decide)⟩
  | negative _ h => exact ⟨_, _, by rw [chars, Number.chars], by decide, by decide⟩
  | text _ s => exact ⟨_, _, by rw [chars, quoted]; rfl, by decide, by decide⟩
  | array => exact ⟨_, _, by rw [chars]; rfl, by decide, by decide⟩
  | object => exact ⟨_, _, by rw [chars]; rfl, by decide, by decide⟩

end Value

namespace Scan

lemma skipBlank_cons {c : Char} (h : isBlank c = false) (cs : List Char) :
    skipBlank (c :: cs) = c :: cs := by
  rw [skipBlank, List.dropWhile_cons_of_neg (by simp [h])]

/-- How a scanner of values treats one of them. -/
def Scans (scanner : List Char → Tree × List Char) (v : Value) : Prop :=
  ∀ rest, Delimits rest → scanner (v.chars ++ rest) = (v.tree, rest)

variable {scanner : List Char → Tree × List Char}

lemma items_chars {vs : List Value} (hne : vs ≠ []) (h : ∀ v ∈ vs, Scans scanner v)
    {characters : Nat} (hlength : vs.length ≤ characters) (rest : List Char) :
    items scanner characters (separated (Value.itemChars vs) ++ ']' :: rest) =
      (Value.itemTrees vs, some rest) := by
  induction vs generalizing characters with
  | nil => exact absurd rfl hne
  | cons v vs ih =>
    obtain ⟨hv, hvs⟩ := List.forall_mem_cons.1 h
    cases characters with
    | zero => exact absurd hlength (Nat.not_succ_le_zero _)
    | succ characters =>
      cases vs with
      | nil =>
        rw [Value.itemChars, Value.itemChars, separated, items, hv _ (by simp [Delimits])]
        simp only [Value.whole_tree, if_true, skipBlank_cons (show isBlank ']' = false by decide)]
        rfl
      | cons v' vs =>
        have hrest := ih nofun hvs (Nat.le_of_succ_le_succ hlength)
        have hseparated : separated (Value.itemChars (v :: v' :: vs)) =
            v.chars ++ ',' :: separated (Value.itemChars (v' :: vs)) := by
          rw [Value.itemChars, Value.itemChars]
          rfl
        rw [hseparated, List.append_assoc, List.cons_append, items, hv _ (by simp [Delimits])]
        simp only [Value.whole_tree, if_true, skipBlank_cons (show isBlank ',' = false by decide),
          hrest]
        rfl

lemma key?_quoted (key : String) (rest : List Char) :
    key? (quoted key ++ rest) = some (some key, rest) := by
  rw [quoted, List.cons_append, List.cons_append, List.append_assoc, key?,
    skipBlank_cons (by decide)]
  exact quotedText_quoted key rest

lemma colon?_cons (rest : List Char) : colon? (':' :: rest) = some rest := by
  rw [colon?, skipBlank_cons (by decide)]
  rfl

lemma members_last {v : Value} (hv : Scans scanner v) (key : String) (characters : Nat)
    (rest : List Char) :
    members scanner (characters + 1) ((quoted key ++ ':' :: v.chars) ++ '}' :: rest) =
      ([(some key, v.tree)], some rest) := by
  have hvalue := hv ('}' :: rest) (by simp [Delimits])
  rw [members, List.append_assoc, key?_quoted, List.cons_append]
  simp only [colon?_cons, Option.map_some, Option.getD_some, hvalue, Value.whole_tree, if_true,
    skipBlank_cons (show isBlank '}' = false by decide)]

lemma members_comma {v : Value} (hv : Scans scanner v) (key : String) (characters : Nat)
    {rest : List Char} {more : List (Option String × Tree)} {left : Option (List Char)}
    (hrest : members scanner characters rest = (more, left)) :
    members scanner (characters + 1) ((quoted key ++ ':' :: v.chars) ++ ',' :: rest) =
      ((some key, v.tree) :: more, left) := by
  have hvalue := hv (',' :: rest) (by simp [Delimits])
  rw [members, List.append_assoc, key?_quoted, List.cons_append]
  simp only [colon?_cons, Option.map_some, Option.getD_some, hvalue, Value.whole_tree, if_true,
    skipBlank_cons (show isBlank ',' = false by decide), hrest]

lemma members_chars {ms : List (String × Value)} (hne : ms ≠ []) (h : ∀ m ∈ ms, Scans scanner m.2)
    {characters : Nat} (hlength : ms.length ≤ characters) (rest : List Char) :
    members scanner characters (separated (Value.memberChars ms) ++ '}' :: rest) =
      (Value.memberTrees ms, some rest) := by
  induction ms generalizing characters with
  | nil => exact absurd rfl hne
  | cons m ms ih =>
    obtain ⟨hm, hms⟩ := List.forall_mem_cons.1 h
    cases characters with
    | zero => exact absurd hlength (Nat.not_succ_le_zero _)
    | succ characters =>
      cases ms with
      | nil =>
        rw [Value.memberChars, Value.memberChars, separated, members_last hm]
        rfl
      | cons m' ms =>
        have hrest := ih nofun hms (Nat.le_of_succ_le_succ hlength)
        have hseparated : separated (Value.memberChars (m :: m' :: ms)) =
            (quoted m.1 ++ ':' :: m.2.chars) ++ ',' :: separated (Value.memberChars (m' :: ms)) := by
          rw [Value.memberChars, Value.memberChars]
          rfl
        rw [hseparated, List.append_assoc _ (',' :: _), List.cons_append,
          members_comma hm _ _ hrest]
        rfl

lemma length_le_separated (pieces : List (List Char)) :
    pieces.length ≤ (separated pieces).length + 1 := by
  induction pieces with
  | nil => exact Nat.zero_le _
  | cons piece pieces ih =>
    cases pieces with
    | nil =>
      simp [separated]
    | cons piece' pieces =>
      simp only [separated, List.length_append, List.length_cons] at ih ⊢
      omega

lemma length_le_of_mem {piece : List Char} {pieces : List (List Char)} (h : piece ∈ pieces) :
    piece.length ≤ (separated pieces).length := by
  induction pieces with
  | nil => cases h
  | cons first pieces ih =>
    cases pieces with
    | nil =>
      rw [List.mem_singleton] at h
      rw [h, separated]
    | cons second pieces =>
      rw [separated, List.length_append, List.length_cons]
      · rcases List.mem_cons.1 h with rfl | h
        · omega
        · have := ih h
          omega
      · nofun

section

variable {characters depth : Nat} {c : Char} {cs left : List Char}
attribute [local simp] value

lemma value_scalar (hblank : isBlank c = false) (hsquare : c ≠ '[') (hcurly : c ≠ '{') {tree : Tree}
    (h : scalar? (c :: cs) = some (tree, left)) :
    value characters depth (c :: cs) = (tree, left) := by
  rw [value.eq_def]
  simp only [skipBlank_cons hblank]
  split
  · simp_all
  · simp_all
  · rw [h, Option.getD_some]

lemma value_array (hblank : isBlank c = false) (hclose : c ≠ ']') {found : List Tree}
    (h : items (value characters depth) characters (c :: cs) = (found, some left)) :
    value characters (depth + 1) ('[' :: c :: cs) = (.array found true, left) := by
  rw [value.eq_def]
  simp only [skipBlank_cons (show isBlank '[' = false by decide), skipBlank_cons hblank]
  split
  · simp_all
  · simp only [h]

lemma value_array_nil (rest : List Char) :
    value characters (depth + 1) ('[' :: ']' :: rest) = (.array [] true, rest) := by
  simp [skipBlank_cons (show isBlank '[' = false by decide),
    skipBlank_cons (show isBlank ']' = false by decide)]

lemma value_object (hblank : isBlank c = false) (hclose : c ≠ '}')
    {found : List (Option String × Tree)}
    (h : members (value characters depth) characters (c :: cs) = (found, some left)) :
    value characters (depth + 1) ('{' :: c :: cs) = (.object found true, left) := by
  rw [value.eq_def]
  simp only [skipBlank_cons (show isBlank '{' = false by decide), skipBlank_cons hblank]
  split
  · simp_all
  · simp only [h]

lemma value_object_nil (rest : List Char) :
    value characters (depth + 1) ('{' :: '}' :: rest) = (.object [] true, rest) := by
  simp [skipBlank_cons (show isBlank '{' = false by decide),
    skipBlank_cons (show isBlank '}' = false by decide)]

end

lemma itemChars_eq (items : List Value) : Value.itemChars items = items.map Value.chars := by
  induction items with
  | nil => rfl
  | cons item items ih => rw [Value.itemChars, ih, List.map_cons]

lemma memberChars_eq (members : List (String × Value)) :
    Value.memberChars members = members.map fun m => quoted m.1 ++ ':' :: m.2.chars := by
  induction members with
  | nil => rfl
  | cons member members ih => rw [Value.memberChars, ih, List.map_cons]

lemma exists_separated_cons (c : Char) (cs : List Char) (pieces : List (List Char)) :
    ∃ tail, separated ((c :: cs) :: pieces) = c :: tail := by
  cases pieces with
  | nil => exact ⟨_, rfl⟩
  | cons piece pieces => exact ⟨_, rfl⟩

section

variable {characters depth : Nat}

lemma scans_natural (n : UInt64) : Scans (value characters depth) (.number (.natural n)) := by
  intro rest hrest
  obtain ⟨c, cs, hcs, hc⟩ := Value.natural_chars n
  have hdigits : Nat.toDigits 10 n.toNat = c :: cs := by
    rw [← toList_toString, ← hcs, Value.chars, Number.chars]
  have hscalar : scalar? (c :: (cs ++ rest)) = some (.number (.natural n), rest) := by
    rw [scalar?_of_isDigit hc, ← List.cons_append, ← hdigits, unsigned_toDigits false _ hrest,
      number?_natural]
    rfl
  rw [hcs, List.cons_append, Value.tree]
  exact value_scalar (isBlank_of_isDigit hc) (ne_of_isDigit hc (by decide))
    (ne_of_isDigit hc (by decide)) hscalar

lemma scans_negative {magnitude : UInt64} (h : Negative magnitude) :
    Scans (value characters depth) (.number (.negative magnitude)) := by
  intro rest hrest
  rw [Value.chars, Number.chars, List.cons_append, toList_toString, Value.tree]
  refine value_scalar (by decide) (by decide) (by decide) ?_
  change (unsigned true (Nat.toDigits 10 magnitude.toNat ++ rest)).map _ = _
  rw [unsigned_toDigits true _ hrest, number?_negative h]
  rfl

lemma scans_text (s : String) : Scans (value characters depth) (.text s) := by
  intro rest _
  rw [Value.chars, quoted, List.cons_append, List.cons_append, List.append_assoc]
  refine value_scalar (by decide) (by decide) (by decide) ?_
  change (quotedText (s.toList.flatMap quotedChar ++ '"' :: rest)).map _ = _
  rw [quotedText_quoted]
  rfl

lemma scans_array {vs : List Value} (h : ∀ v ∈ vs, v.Within depth)
    (ih : ∀ v ∈ vs, v.chars.length ≤ characters → Scans (value characters depth) v)
    (hlength : (Value.array vs).chars.length ≤ characters) :
    Scans (value characters (depth + 1)) (.array vs) := by
  intro rest _
  cases vs with
  | nil =>
    rw [Value.chars]
    exact value_array_nil rest
  | cons v vs =>
    obtain ⟨c, cs, hc, hblank, hclose⟩ := (h v (List.mem_cons_self ..)).head_chars
    obtain ⟨tail, htail⟩ := exists_separated_cons c cs (Value.itemChars vs)
    have hpieces : separated (Value.itemChars (v :: vs)) = c :: tail := by
      rw [Value.itemChars, hc, htail]
    rw [Value.chars, List.length_append, List.length_cons, itemChars_eq] at hlength
    have hcount := length_le_separated ((v :: vs).map Value.chars)
    rw [List.length_map] at hcount
    have hscans : ∀ u ∈ v :: vs, Scans (value characters depth) u := by
      intro u hu
      have hpiece := length_le_of_mem (List.mem_map_of_mem (f := Value.chars) hu)
      exact ih u hu (by omega)
    have hcharacters : (v :: vs).length ≤ characters := by omega
    have hitems := items_chars (List.cons_ne_nil v vs) hscans hcharacters rest
    rw [hpieces] at hitems
    rw [Value.chars, List.cons_append, List.cons_append, List.append_assoc, hpieces]
    exact value_array hblank hclose hitems

lemma scans_object {ms : List (String × Value)}
    (ih : ∀ m ∈ ms, m.2.chars.length ≤ characters → Scans (value characters depth) m.2)
    (hlength : (Value.object ms).chars.length ≤ characters) :
    Scans (value characters (depth + 1)) (.object ms) := by
  intro rest _
  cases ms with
  | nil =>
    rw [Value.chars]
    exact value_object_nil rest
  | cons m ms =>
    have hquoted : quoted m.1 ++ ':' :: m.2.chars =
        '"' :: (m.1.toList.flatMap quotedChar ++ ['"'] ++ ':' :: m.2.chars) := rfl
    obtain ⟨tail, htail⟩ := exists_separated_cons '"' _ (Value.memberChars ms)
    have hpieces : separated (Value.memberChars (m :: ms)) = '"' :: tail := by
      rw [Value.memberChars, hquoted, htail]
    rw [Value.chars, List.length_append, List.length_cons, memberChars_eq] at hlength
    have hcount := length_le_separated ((m :: ms).map fun m => quoted m.1 ++ ':' :: m.2.chars)
    rw [List.length_map] at hcount
    have hscans : ∀ u ∈ m :: ms, Scans (value characters depth) u.2 := by
      intro u hu
      have hpiece := length_le_of_mem
        (List.mem_map_of_mem (f := fun m => quoted m.1 ++ ':' :: m.2.chars) hu)
      simp only [List.length_append, List.length_cons] at hpiece
      exact ih u hu (by omega)
    have hcharacters : (m :: ms).length ≤ characters := by omega
    have hmembers := members_chars (List.cons_ne_nil m ms) hscans hcharacters rest
    rw [hpieces] at hmembers
    rw [Value.chars, List.cons_append, List.cons_append, List.append_assoc, hpieces]
    exact value_object (by decide) (by decide) hmembers

end

/-- The text of a document is scanned into its tree. -/
theorem value_chars {depth : Nat} {v : Value} (h : v.Within depth) {characters : Nat}
    (hlength : v.chars.length ≤ characters) : Scans (value characters depth) v := by
  induction h with
  | null depth =>
    intro rest _
    rw [Value.chars]
    exact value_scalar (by decide) (by decide) (by decide) rfl
  | natural depth n => exact scans_natural n
  | negative depth h => exact scans_negative h
  | bool depth b =>
    intro rest _
    cases b <;> rw [Value.chars] <;>
      exact value_scalar (by decide) (by decide) (by decide) rfl
  | text depth s => exact scans_text s
  | array h ih => exact scans_array h ih hlength
  | object h ih => exact scans_object ih hlength

end Scan

/-- The text of a document is scanned completely. -/
theorem scan_render {v : Value} (h : v.Within nestingLimit) : scan v.render = (v.tree, true) := by
  have hscan := Scan.value_chars h (Nat.le_refl _) [] trivial
  rw [List.append_nil] at hscan
  rw [scan, Value.render, String.toList_ofList]
  simp only [hscan]
  rfl

end SignedNames.Json
