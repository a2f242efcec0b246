import Mathlib
import SignedNames.Proofs.Cbor.Heads
import SignedNames.Proofs.Text.Utf8

/-!
# Items as they may be written

One item may be written in many ways: numbers and lengths wider than needed, strings in pieces,
lists and maps up to a mark. However it is written, the item is read back from the front of any byte
string that starts with it.
-/
namespace SignedNames.Cbor

/-- The bytes are a head with a number, in any width that the number fits in. -/
def Announces (major n : Nat) (front : Bytes) : Prop :=
  ∃ form, Head.Spelled ⟨major, form, some n⟩ front

/-- The bytes are the item, nested at most `depth` deep. A short byte string behind the tag of a big
number is that number, and not a tagged item. -/
inductive Spells : (depth : Nat) → Bytes → Item → Prop
  | natural {depth n : Nat} {front : Bytes} (number : Announces 0 n front) :
    Spells depth front (.integer n)
  | negative {depth n : Nat} {front : Bytes} (number : Announces 1 n front) :
    Spells depth front (.integer (-1 - Int.ofNat n))
  | bytes {depth : Nat} {front bs : Bytes} (length : Announces 2 bs.length front) :
    Spells depth (front ++ bs) (.bytes bs)
  | bytesInPieces {depth : Nat} {parts : List (Bytes × Bytes)}
    (lengths : ∀ p ∈ parts, Announces 2 p.2.length p.1) :
    Spells depth ([firstByte 2 31] ++ (parts.flatMap fun p => p.1 ++ p.2) ++ [endMark])
      (.bytes (parts.map Prod.snd).flatten)
  | text {depth : Nat} {front : Bytes} {s : String}
    (length : Announces 3 (Text.utf8 s).length front) :
    Spells depth (front ++ Text.utf8 s) (.text s)
  | textInPieces {depth : Nat} {parts : List (Bytes × String)}
    (lengths : ∀ p ∈ parts, Announces 3 (Text.utf8 p.2).length p.1) :
    Spells depth ([firstByte 3 31] ++ (parts.flatMap fun p => p.1 ++ Text.utf8 p.2) ++ [endMark])
      (.text (String.join (parts.map Prod.snd)))
  | array {depth : Nat} {front : Bytes} {items : List (Bytes × Item)}
    (length : Announces 4 items.length front) (each : ∀ p ∈ items, Spells depth p.1 p.2) :
    Spells (depth + 1) (front ++ items.flatMap Prod.fst) (.array (items.map Prod.snd))
  | arrayUntilEnd {depth : Nat} {items : List (Bytes × Item)}
    (each : ∀ p ∈ items, Spells depth p.1 p.2) :
    Spells (depth + 1) ([firstByte 4 31] ++ items.flatMap Prod.fst ++ [endMark])
      (.array (items.map Prod.snd))
  | map {depth : Nat} {front : Bytes} {entries : List ((Bytes × Item) × (Bytes × Item))}
    (length : Announces 5 entries.length front) (keys : ∀ e ∈ entries, Spells depth e.1.1 e.1.2)
    (values : ∀ e ∈ entries, Spells depth e.2.1 e.2.2) :
    Spells (depth + 1) (front ++ entries.flatMap fun e => e.1.1 ++ e.2.1)
      (.map (entries.map fun e => (e.1.2, e.2.2)))
  | mapUntilEnd {depth : Nat} {entries : List ((Bytes × Item) × (Bytes × Item))}
    (keys : ∀ e ∈ entries, Spells depth e.1.1 e.1.2)
    (values : ∀ e ∈ entries, Spells depth e.2.1 e.2.2) :
    Spells (depth + 1) ([firstByte 5 31] ++ (entries.flatMap fun e => e.1.1 ++ e.2.1) ++ [endMark])
      (.map (entries.map fun e => (e.1.2, e.2.2)))
  | tag {depth number : Nat} {front bs : Bytes} {item : Item} (hnumber : Announces 6 number front)
    (content : Spells depth bs item)
    (plain : number = 2 ∨ number = 3 → ∀ n ≤ 16, ∀ start, Announces 2 n start → ¬start <+: bs) :
    Spells (depth + 1) (front ++ bs) (.tag number item)
  | bigNatural {depth : Nat} {front start digits : Bytes} (hnumber : Announces 6 2 front)
    (length : Announces 2 digits.length start) (short : digits.length ≤ 16) :
    Spells depth (front ++ (start ++ digits)) (.integer (BigEndian.value digits))
  | bigNegative {depth : Nat} {front start digits : Bytes} (hnumber : Announces 6 3 front)
    (length : Announces 2 digits.length start) (short : digits.length ≤ 16)
    (range : BigEndian.value digits < 2 ^ 127) :
    Spells depth (front ++ (start ++ digits)) (.integer (-1 - Int.ofNat (BigEndian.value digits)))
  | bool {depth : Nat} (b : Bool) : Spells depth [firstByte 7 (if b then 21 else 20)] (.bool b)
  | null {depth : Nat} : Spells depth [firstByte 7 22] .null
  | undefined {depth : Nat} : Spells depth [firstByte 7 23] .null
  | float {depth k : Nat} {digits : Bytes} (hk : 0 < k ∧ k < 4) (width : digits.length = 2 ^ k) :
    Spells depth (firstByte 7 (24 + k) :: digits) (.float (2 ^ k) (BigEndian.value digits))

section Sequences
variable {α β : Type} {read : Bytes → Option (β × Bytes)} {bytes : α → Bytes} {result : α → β}

lemma times_flatMap {things : List α}
    (h : ∀ a ∈ things, ∀ rest, read (bytes a ++ rest) = some (result a, rest)) (rest : Bytes) :
    times read things.length (things.flatMap bytes ++ rest) = some (things.map result, rest) := by
  induction things with
  | nil => rfl
  | cons a more ih =>
    have hmore := ih fun b hb => h b (by simp [hb])
    simp [times, List.flatMap_cons, List.append_assoc, h a (by simp), hmore]

lemma length_le_flatMap {things : List α} (h : ∀ a ∈ things, bytes a ≠ []) :
    things.length ≤ (things.flatMap bytes).length := by
  induction things with
  | nil => exact le_rfl
  | cons a more ih =>
    have hmore := ih fun b hb => h b (by simp [hb])
    have ha := List.length_pos_iff.2 (h a (by simp))
    rw [List.flatMap_cons, List.length_append, List.length_cons]
    omega

lemma untilEnd_flatMap {things : List α}
    (h : ∀ a ∈ things, ∀ rest, read (bytes a ++ rest) = some (result a, rest))
    (hstart : ∀ a ∈ things, bytes a ≠ [] ∧ (bytes a).head? ≠ some endMark) {characters : Nat}
    (hcharacters : things.length < characters) (rest : Bytes) :
    untilEnd read characters (things.flatMap bytes ++ endMark :: rest) =
      some (things.map result, rest) := by
  induction things generalizing characters with
  | nil =>
    obtain ⟨characters, rfl⟩ := Nat.exists_eq_add_one_of_ne_zero (Nat.ne_of_gt hcharacters)
    simp [untilEnd]
  | cons a more ih =>
    obtain ⟨characters, rfl⟩ :=
      Nat.exists_eq_add_one_of_ne_zero (Nat.ne_of_gt (Nat.zero_lt_of_lt hcharacters))
    have hmore := ih (fun b hb => h b (by simp [hb])) (fun b hb => hstart b (by simp [hb]))
      (Nat.lt_of_succ_lt_succ hcharacters)
    obtain ⟨hne, hhead⟩ := hstart a (by simp)
    have hhead' : (bytes a ++ (more.flatMap bytes ++ endMark :: rest)).head? ≠ some endMark := by
      rwa [List.head?_append_of_ne_nil _ hne]
    rw [List.flatMap_cons, List.append_assoc, untilEnd, if_neg hhead', h a (by simp)]
    simp [hmore]

end Sequences

namespace Announces

variable {major n : Nat} {front : Bytes}

lemma read (h : Announces major n front) (hm : major < 8) (rest : Bytes) :
    ∃ form, Head.read (front ++ rest) = some (⟨major, form, some n⟩, rest) := by
  obtain ⟨form, hspelled⟩ := h
  exact ⟨form, Head.read_of_spelled hspelled hm rest⟩

lemma ne_nil (h : Announces major n front) : front ≠ [] := by
  obtain ⟨form, hspelled⟩ := h
  cases hspelled <;> simp

end Announces

lemma read_endMark (rest : Bytes) : Head.read (endMark :: rest) = some (⟨7, 31, none⟩, rest) :=
  Head.read_of_spelled (.indefinite 7) (by decide) rest

/-- The bytes begin with a head, and not with the mark that ends strings, lists and maps. -/
def Begins (bs : Bytes) : Prop :=
  ∃ head front tail, head.major < 8 ∧ ¬(head.major = 7 ∧ head.form = 31) ∧
    Head.Spelled head front ∧ bs = front ++ tail

lemma Announces.begins {major n : Nat} {front : Bytes} (h : Announces major n front)
    (hm : major < 7) (tail : Bytes) : Begins (front ++ tail) := by
  obtain ⟨form, hspelled⟩ := h
  exact ⟨_, front, tail, hm.trans (by decide), fun hmark => hm.ne hmark.1, hspelled, rfl⟩

lemma begins_unended {major : Nat} (hm : major < 7) (tail : Bytes) :
    Begins ([firstByte major 31] ++ tail ++ [endMark]) := by
  rw [List.append_assoc]
  exact ⟨_, _, _, hm.trans (by decide), fun hmark => hm.ne hmark.1, .indefinite major, rfl⟩

lemma begins_simple {n : Nat} (hn : n < 24) : Begins [firstByte 7 n] := by
  refine ⟨_, _, [], Nat.lt_succ_self 7, ?_, .immediate 7 hn, rfl⟩
  rintro ⟨-, hform : n = 31⟩
  omega

lemma begins_float {k : Nat} {digits : Bytes} (hk : k < 4) (h : digits.length = 2 ^ k) :
    Begins (firstByte 7 (24 + k) :: digits) := by
  refine ⟨_, _, [], Nat.lt_succ_self 7, ?_, .following 7 hk h, (List.append_nil _).symm⟩
  rintro ⟨-, hform : 24 + k = 31⟩
  omega

lemma Begins.not_endMark {bs : Bytes} (h : Begins bs) :
    bs ≠ [] ∧ bs.head? ≠ some endMark := by
  obtain ⟨head, front, tail, hm, hmark, hspelled, rfl⟩ := h
  have hread := Head.read_of_spelled hspelled hm tail
  constructor
  · intro hnil
    rw [hnil] at hread
    cases hread
  · intro hend
    obtain ⟨rest, hrest⟩ := List.head?_eq_some_iff.1 hend
    rw [hrest, read_endMark] at hread
    cases hread
    exact hmark ⟨rfl, rfl⟩

theorem Spells.begins {depth : Nat} {bs : Bytes} {item : Item} (h : Spells depth bs item) :
    Begins bs := by
  cases h with
  | natural number => simpa using number.begins (by decide) []
  | negative number => simpa using number.begins (by decide) []
  | bytes length => exact length.begins (by decide) _
  | bytesInPieces _ => exact begins_unended (by decide) _
  | text length => exact length.begins (by decide) _
  | textInPieces _ => exact begins_unended (by decide) _
  | array length _ => exact length.begins (by decide) _
  | arrayUntilEnd _ => exact begins_unended (by decide) _
  | map length _ _ => exact length.begins (by decide) _
  | mapUntilEnd _ _ => exact begins_unended (by decide) _
  | tag hnumber _ _ => exact hnumber.begins (by decide) _
  | bigNatural hnumber _ _ => exact hnumber.begins (by decide) _
  | bigNegative hnumber _ _ _ => exact hnumber.begins (by decide) _
  | bool b => exact begins_simple (by split <;> decide)
  | null => exact begins_simple (by decide)
  | undefined => exact begins_simple (by decide)
  | float hk width => exact begins_float hk.2 width

lemma pieces_flatMap {major : Nat} (hm : major < 7) {parts : List (Bytes × Bytes)}
    (h : ∀ p ∈ parts, Announces major p.2.length p.1) {characters : Nat}
    (hcharacters : parts.length < characters) (rest : Bytes) :
    pieces major characters 1 ((parts.flatMap fun p => p.1 ++ p.2) ++ endMark :: rest) =
      some (parts.map Prod.snd, rest) := by
  induction parts generalizing characters with
  | nil =>
    obtain ⟨characters, rfl⟩ := Nat.exists_eq_add_one_of_ne_zero (Nat.ne_of_gt hcharacters)
    simp [pieces, read_endMark]
  | cons p more ih =>
    obtain ⟨characters, rfl⟩ :=
      Nat.exists_eq_add_one_of_ne_zero (Nat.ne_of_gt (Nat.zero_lt_of_lt hcharacters))
    have hmore := ih (fun q hq => h q (by simp [hq])) (Nat.lt_of_succ_lt_succ hcharacters)
    obtain ⟨form, hread⟩ := (h p (by simp)).read (hm.trans (by decide))
      (p.2 ++ ((more.flatMap fun p => p.1 ++ p.2) ++ endMark :: rest))
    have hseven : major ≠ 7 := hm.ne
    simp [pieces, hread, hseven, hmore]

lemma stringPieces_flatMap {major : Nat} (hm : major < 7) {parts : List (Bytes × Bytes)}
    (h : ∀ p ∈ parts, Announces major p.2.length p.1) (rest : Bytes) :
    stringPieces ⟨major, 31, none⟩ ((parts.flatMap fun p => p.1 ++ p.2) ++ endMark :: rest) =
      some (parts.map Prod.snd, rest) := by
  have hlength : parts.length ≤ (parts.flatMap fun p => p.1 ++ p.2).length :=
    length_le_flatMap fun p hp => List.append_ne_nil_of_left_ne_nil (h p hp).ne_nil _
  refine pieces_flatMap hm h ?_ rest
  rw [List.length_append, List.length_cons]
  omega

lemma mapM_ofUtf8? (texts : List String) :
    texts.mapM (Text.ofUtf8? ∘ Text.utf8) = some texts := by
  induction texts with
  | nil => rfl
  | cons s texts ih => simp [ih]

lemma pair_append {read : Bytes → Option (Item × Bytes)} {key value : Bytes × Item}
    (hkey : ∀ rest, read (key.1 ++ rest) = some (key.2, rest))
    (hvalue : ∀ rest, read (value.1 ++ rest) = some (value.2, rest)) (rest : Bytes) :
    pair read ((key.1 ++ value.1) ++ rest) = some ((key.2, value.2), rest) := by
  simp [pair, List.append_assoc, hkey, hvalue]

lemma announced_untilEnd {α β : Type} {read : Bytes → Option (β × Bytes)} {bytes : α → Bytes}
    {result : α → β} {things : List α}
    (h : ∀ a ∈ things, ∀ rest, read (bytes a ++ rest) = some (result a, rest))
    (hbegins : ∀ a ∈ things, Begins (bytes a)) (major : Nat) (rest : Bytes) :
    announced read ⟨major, 31, none⟩ (things.flatMap bytes ++ endMark :: rest) =
      some (things.map result, rest) := by
  have hlength : things.length ≤ (things.flatMap bytes).length :=
    length_le_flatMap fun a ha => (hbegins a ha).not_endMark.1
  refine untilEnd_flatMap h (fun a ha => (hbegins a ha).not_endMark) ?_ rest
  rw [List.length_append, List.length_cons]
  omega

lemma Begins.append {bs : Bytes} (h : Begins bs) (more : Bytes) : Begins (bs ++ more) := by
  obtain ⟨head, front, tail, hm, hmark, hspelled, rfl⟩ := h
  exact ⟨head, front, tail ++ more, hm, hmark, hspelled, List.append_assoc ..⟩

lemma bigMagnitude?_of_plain {number : Nat} {bs : Bytes} (h : Begins bs)
    (plain : number = 2 ∨ number = 3 → ∀ n ≤ 16, ∀ start, Announces 2 n start → ¬start <+: bs)
    (rest : Bytes) : bigMagnitude? number (bs ++ rest) = some none := by
  obtain ⟨head, front, tail, hm, -, hspelled, rfl⟩ := h
  have hread := Head.read_of_spelled hspelled hm (tail ++ rest)
  rw [bigMagnitude?, List.append_assoc, hread]
  split_ifs with hnumber
  · obtain ⟨major, form, argument⟩ := head
    cases argument with
    | none => rfl
    | some length =>
      refine if_neg fun hshort => ?_
      obtain ⟨rfl, hlength⟩ := hshort
      exact plain hnumber length hlength front ⟨form, hspelled⟩ (List.prefix_append ..)
  · rfl

lemma bigMagnitude?_of_short {number : Nat} (hnumber : number = 2 ∨ number = 3)
    {start digits : Bytes} (h : Announces 2 digits.length start) (short : digits.length ≤ 16)
    (rest : Bytes) : bigMagnitude? number (start ++ digits ++ rest) =
      some (some (BigEndian.value digits, rest)) := by
  obtain ⟨form, hread⟩ := h.read (by decide) (digits ++ rest)
  rw [bigMagnitude?, if_pos hnumber, List.append_assoc, hread]
  simp [short]

lemma read_unended {major : Nat} (hm : major < 7) (tail rest : Bytes) :
    Head.read ([firstByte major 31] ++ tail ++ [endMark] ++ rest) =
      some (⟨major, 31, none⟩, tail ++ endMark :: rest) := by
  rw [List.append_assoc, List.append_assoc]
  exact Head.read_of_spelled (.indefinite major) (hm.trans (by decide)) _

section Kinds
variable {depth form n : Nat} {argument : Option Nat} {bs rest : Bytes}
attribute [local simp] Item.readWithin

lemma readWithin_natural (h : Head.read bs = some (⟨0, form, some n⟩, rest)) :
    Item.readWithin depth bs = some (.integer n, rest) := by
  simp [h]

lemma readWithin_negative (h : Head.read bs = some (⟨1, form, some n⟩, rest)) :
    Item.readWithin depth bs = some (.integer (-1 - Int.ofNat n), rest) := by
  simp [h]

lemma readWithin_bytes {parts : List Bytes} {left : Bytes}
    (h : Head.read bs = some (⟨2, form, argument⟩, rest))
    (hparts : stringPieces ⟨2, form, argument⟩ rest = some (parts, left)) :
    Item.readWithin depth bs = some (.bytes parts.flatten, left) := by
  simp [h, hparts]

lemma readWithin_text {texts : List String} {left : Bytes}
    (h : Head.read bs = some (⟨3, form, argument⟩, rest))
    (hparts : stringPieces ⟨3, form, argument⟩ rest = some (texts.map Text.utf8, left)) :
    Item.readWithin depth bs = some (.text (String.join texts), left) := by
  simp [h, hparts, mapM_ofUtf8?]

lemma stringPieces_whole (major form : Nat) (whole rest : Bytes) :
    stringPieces ⟨major, form, some whole.length⟩ (whole ++ rest) = some ([whole], rest) := by
  simp [stringPieces]

lemma readWithin_wholeBytes {whole : Bytes}
    (h : Head.read bs = some (⟨2, form, some whole.length⟩, whole ++ rest)) :
    Item.readWithin depth bs = some (.bytes whole, rest) := by
  have hread : Item.readWithin depth bs = some (.bytes [whole].flatten, rest) :=
    readWithin_bytes h (stringPieces_whole 2 form whole rest)
  rwa [List.flatten_singleton] at hread

lemma readWithin_wholeText {s : String}
    (h : Head.read bs = some (⟨3, form, some (Text.utf8 s).length⟩, Text.utf8 s ++ rest)) :
    Item.readWithin depth bs = some (.text s, rest) := by
  have hread : Item.readWithin depth bs = some (.text (String.join [s]), rest) :=
    readWithin_text h (stringPieces_whole 3 form (Text.utf8 s) rest)
  have hjoin : String.join [s] = s := by simp [String.join]
  rwa [hjoin] at hread

lemma readWithin_array {items : List Item} {left : Bytes}
    (h : Head.read bs = some (⟨4, form, argument⟩, rest))
    (hitems : announced (Item.readWithin depth) ⟨4, form, argument⟩ rest = some (items, left)) :
    Item.readWithin (depth + 1) bs = some (.array items, left) := by
  simp [h, hitems]

lemma readWithin_map {entries : List (Item × Item)} {left : Bytes}
    (h : Head.read bs = some (⟨5, form, argument⟩, rest))
    (hentries : announced (pair (Item.readWithin depth)) ⟨5, form, argument⟩ rest =
      some (entries, left)) : Item.readWithin (depth + 1) bs = some (.map entries, left) := by
  simp [h, hentries]

lemma readWithin_tag {item : Item} {left : Bytes}
    (h : Head.read bs = some (⟨6, form, some n⟩, rest)) (hbig : bigMagnitude? n rest = some none)
    (hitem : Item.readWithin depth rest = some (item, left)) :
    Item.readWithin (depth + 1) bs = some (.tag n item, left) := by
  -- `simp` would unfold the reading of the tagged item too.
  rw [Item.readWithin.eq_def]
  simp only [h, hbig, hitem, Option.map_some]

lemma readWithin_bigNatural {magnitude : Nat} {left : Bytes}
    (h : Head.read bs = some (⟨6, form, some 2⟩, rest))
    (hbig : bigMagnitude? 2 rest = some (some (magnitude, left))) :
    Item.readWithin depth bs = some (.integer magnitude, left) := by
  simp [h, hbig]

lemma readWithin_bigNegative {magnitude : Nat} {left : Bytes}
    (h : Head.read bs = some (⟨6, form, some 3⟩, rest))
    (hbig : bigMagnitude? 3 rest = some (some (magnitude, left))) (range : magnitude < 2 ^ 127) :
    Item.readWithin depth bs = some (.integer (-1 - Int.ofNat magnitude), left) := by
  simpa [h, hbig] using range

lemma readWithin_simple {item : Item} (h : Head.read bs = some (⟨7, form, some n⟩, rest))
    (hform : form ≤ 24) (hitem : simple? n = some item) :
    Item.readWithin depth bs = some (item, rest) := by
  simp [h, hform, hitem]

lemma readWithin_float (h : Head.read bs = some (⟨7, form, some n⟩, rest)) (hform : ¬form ≤ 24) :
    Item.readWithin depth bs = some (.float (1 <<< (form - 24)) n, rest) := by
  simp [h, hform]

end Kinds

/-- However an item is written, it is read from the front of any bytes. -/
theorem Spells.read {depth : Nat} {bs : Bytes} {item : Item} (h : Spells depth bs item)
    (rest : Bytes) : Item.readWithin depth (bs ++ rest) = some (item, rest) := by
  induction h generalizing rest with
  | natural number =>
    obtain ⟨form, hread⟩ := number.read (by decide) rest
    exact readWithin_natural hread
  | negative number =>
    obtain ⟨form, hread⟩ := number.read (by decide) rest
    exact readWithin_negative hread
  | @bytes _ front bs length =>
    obtain ⟨form, hread⟩ := length.read (by decide) (bs ++ rest)
    rw [← List.append_assoc] at hread
    exact readWithin_wholeBytes hread
  | bytesInPieces lengths =>
    exact readWithin_bytes (read_unended (by decide) _ rest)
      (stringPieces_flatMap (by decide) lengths rest)
  | @text _ front s length =>
    obtain ⟨form, hread⟩ := length.read (by decide) (Text.utf8 s ++ rest)
    rw [← List.append_assoc] at hread
    exact readWithin_wholeText hread
  | @textInPieces _ parts lengths =>
    have hlengths : ∀ p ∈ parts.map fun p => (p.1, Text.utf8 p.2), Announces 3 p.2.length p.1 :=
      List.forall_mem_map.2 lengths
    have hpieces := stringPieces_flatMap (by decide) hlengths rest
    rw [List.flatMap_map, List.map_map] at hpieces
    refine readWithin_text (read_unended (by decide) _ rest) ?_
    rw [List.map_map]
    exact hpieces
  | @array depth front items length _ ih =>
    obtain ⟨form, hread⟩ := length.read (by decide) (items.flatMap Prod.fst ++ rest)
    rw [← List.append_assoc] at hread
    exact readWithin_array hread (times_flatMap ih rest)
  | @arrayUntilEnd depth items each ih =>
    exact readWithin_array (read_unended (by decide) _ rest)
      (announced_untilEnd ih (fun p hp => (each p hp).begins) 4 rest)
  | @map depth front entries length _ _ ihk ihv =>
    obtain ⟨form, hread⟩ := length.read (by decide)
      ((entries.flatMap fun e => e.1.1 ++ e.2.1) ++ rest)
    rw [← List.append_assoc] at hread
    exact readWithin_map hread
      (times_flatMap (fun e he => pair_append (ihk e he) (ihv e he)) rest)
  | @mapUntilEnd depth entries keys values ihk ihv =>
    exact readWithin_map (read_unended (by decide) _ rest)
      (announced_untilEnd (fun e he => pair_append (ihk e he) (ihv e he))
        (fun e he => (keys e he).begins.append e.2.1) 5 rest)
  | @tag depth number front bs item hnumber content plain ih =>
    obtain ⟨form, hread⟩ := hnumber.read (by decide) (bs ++ rest)
    rw [← List.append_assoc] at hread
    exact readWithin_tag hread (bigMagnitude?_of_plain content.begins plain rest) (ih rest)
  | @bigNatural _ front start digits hnumber length short =>
    obtain ⟨form, hread⟩ := hnumber.read (by decide) (start ++ digits ++ rest)
    rw [← List.append_assoc] at hread
    exact readWithin_bigNatural hread (bigMagnitude?_of_short (.inl rfl) length short rest)
  | @bigNegative _ front start digits hnumber length short range =>
    obtain ⟨form, hread⟩ := hnumber.read (by decide) (start ++ digits ++ rest)
    rw [← List.append_assoc] at hread
    exact readWithin_bigNegative hread (bigMagnitude?_of_short (.inr rfl) length short rest) range
  | bool b =>
    cases b <;> exact readWithin_simple rfl (by decide) rfl
  | null => exact readWithin_simple rfl (by decide) rfl
  | undefined => exact readWithin_simple rfl (by decide) rfl
  | @float _ k digits hk width =>
    have hseven : 7 < 8 := by decide
    have hread := Head.read_of_spelled (.following 7 hk.2 width) hseven rest
    have hpow : 2 ^ k = 1 <<< (24 + k - 24) := by
      rw [Nat.add_sub_cancel_left, Nat.one_shiftLeft]
    rw [hpow]
    exact readWithin_float hread (by omega)

end SignedNames.Cbor
