import Mathlib
import SignedNames.Proofs.Json.ScannedValues
import SignedNames.Proofs.Json.TokenLocality

/-!
# Values in another place

What a text is scanned into does not depend on what comes after it, as long as that does not go on
with a number, nor on the length of the document. So a readable value may stand anywhere in a
document that leaves it enough depth, and an object may be put together from texts that are members
by themselves.
-/
namespace SignedNames.Json.Scan

lemma word_local {c : Char} {word cs rest : List Char} {t t' : Tree}
    (hc : c ≠ '[' ∧ c ≠ '{' ∧ isBlank c = false)
    (hscan : ∀ cs, scalar? (c :: cs) = (word? word cs).map (t', ·))
    (h : (word? word cs).map (t', ·) = some (t, rest)) :
    ∃ c' u, c :: cs = c' :: u ++ rest ∧ c' ≠ '[' ∧ c' ≠ '{' ∧ isBlank c' = false ∧
      ∀ rest', Stops rest' → scalar? (c' :: u ++ rest') = some (t, rest') := by
  obtain ⟨left, hleft, hp⟩ := Option.map_eq_some_iff.1 h
  cases hp
  refine ⟨c, word, ?_, hc.1, hc.2.1, hc.2.2, fun rest' _ => ?_⟩
  · rw [eq_of_word? hleft, List.cons_append]
  · rw [List.cons_append, hscan, word?_append]
    rfl

lemma scalar?_local {cs rest : List Char} {t : Tree} (h : scalar? cs = some (t, rest))
    (hrest : Stops rest) :
    ∃ c u, cs = c :: u ++ rest ∧ c ≠ '[' ∧ c ≠ '{' ∧ isBlank c = false ∧
      ∀ rest', Stops rest' → scalar? (c :: u ++ rest') = some (t, rest') := by
  unfold scalar? at h
  split at h
  · exact word_local (by decide) (fun _ => rfl) h
  · exact word_local (by decide) (fun _ => rfl) h
  · exact word_local (by decide) (fun _ => rfl) h
  · obtain ⟨⟨s, left⟩, hs, hp⟩ := Option.map_eq_some_iff.1 h
    cases hp
    obtain ⟨u, rfl, hu⟩ := quotedText_local hs
    refine ⟨_, u, rfl, by decide, by decide, by decide, fun rest' _ => ?_⟩
    rw [List.cons_append, scalar?, hu]
    rfl
  · obtain ⟨⟨n, left⟩, hn, hp⟩ := Option.map_eq_some_iff.1 h
    cases hp
    obtain ⟨u, rfl, hu⟩ := unsigned_local hn hrest
    refine ⟨_, u, rfl, by decide, by decide, by decide, fun rest' hrest' => ?_⟩
    rw [List.cons_append, scalar?, hu rest' hrest']
    rfl
  · obtain ⟨⟨n, left⟩, hn, hp⟩ := Option.map_eq_some_iff.1 h
    cases hp
    obtain ⟨u, rfl, hu⟩ := unsigned_local hn hrest
    cases u with
    | nil =>
      rw [List.nil_append, unsigned, hrest.digits] at hn
      cases hn
    | cons c u =>
      have hc := isDigit_of_unsigned hn
      refine ⟨c, u, rfl, ne_of_isDigit hc (by decide), ne_of_isDigit hc (by decide),
        isBlank_of_isDigit hc, fun rest' hrest' => ?_⟩
      rw [List.cons_append, scalar?_of_isDigit hc, ← List.cons_append, hu rest' hrest']
      rfl

def Readable (t : Tree) : Prop := ∃ v, t.value? = some v

lemma readable_of_itemValues? {items : List Tree} {vs : List Value}
    (h : itemValues? items = some vs) : ∀ t ∈ items, Readable t := by
  induction items generalizing vs with
  | nil => exact List.forall_mem_nil _
  | cons item items ih =>
    rw [itemValues?] at h
    split at h
    · rename_i hv hvs
      exact List.forall_mem_cons.2 ⟨⟨_, hv⟩, ih hvs⟩
    · cases h

lemma exists_readable_of_memberValues? {members : List (Option String × Tree)}
    {vs : List (String × Value)} (h : memberValues? members = some vs) :
    ∃ ms : List (String × Tree), members = ms.map (fun m => (some m.1, m.2)) ∧
      ms.map (·.1) = vs.map (·.1) ∧ ∀ m ∈ ms, Readable m.2 := by
  induction members generalizing vs with
  | nil =>
    cases h
    exact ⟨[], rfl, rfl, List.forall_mem_nil _⟩
  | cons member members ih =>
    obtain ⟨key, tree⟩ := member
    rw [memberValues?.eq_def] at h
    simp only at h
    split at h
    · rename_i key v vs hv hvs
      cases h
      obtain ⟨ms, rfl, hkeys, hread⟩ := ih hvs
      exact ⟨(key, tree) :: ms, rfl, congrArg (key :: ·) hkeys,
        List.forall_mem_cons.2 ⟨⟨v, hv⟩, hread⟩⟩
    · cases h

/-- The text is read as this value, whatever follows that does not go on with it. -/
structure ReadsValue (depth : Nat) (u : List Char) (t : Tree) : Prop where
  ne_nil : u ≠ []
  value : ∀ (characters : Nat) (rest : List Char), u.length ≤ characters → Stops rest →
    Scan.value characters depth (u ++ rest) = (t, rest)

/-- Readable values that are scanned would be scanned in any document. -/
def ValuesLocal (depth : Nat) : Prop :=
  ∀ {characters : Nat} {cs rest : List Char} {t : Tree},
    value characters depth cs = (t, rest) → Readable t → Stops rest →
      ∃ u, cs = u ++ rest ∧ ReadsValue depth u t

/-- The text is read as these items, up to the end of their array. -/
structure ReadsItems (depth : Nat) (u : List Char) (found : List Tree) : Prop where
  length : found.length < u.length
  items : ∀ (characters k : Nat) (rest : List Char), u.length ≤ characters →
    Scan.items (Scan.value characters depth) (k + found.length) (u ++ rest) = (found, some rest)

/-- The text is read as these members, in an object that goes on with a comma or ends. -/
structure ReadsMembers (depth : Nat) (u : List Char) (found : List (Option String × Tree)) :
    Prop where
  length : found.length ≤ u.length
  last : ∀ (characters k : Nat) (rest : List Char), u.length ≤ characters →
    members (value characters depth) (k + found.length) (u ++ '}' :: rest) = (found, some rest)
  comma : ∀ (characters k : Nat) (rest : List Char) {more : List (Option String × Tree)}
    {left : Option (List Char)}, u.length ≤ characters →
      members (value characters depth) k rest = (more, left) →
        members (value characters depth) (k + found.length) (u ++ ',' :: rest) =
          (found ++ more, left)

theorem ReadsMembers.append {depth : Nat} {u v : List Char}
    {found more : List (Option String × Tree)} (hu : ReadsMembers depth u found)
    (hv : ReadsMembers depth v more) : ReadsMembers depth (u ++ ',' :: v) (found ++ more) where
  length := by
    have hfound := hu.length
    have hmore := hv.length
    simp only [List.length_append, List.length_cons]
    omega
  last characters k rest hcharacters := by
    simp only [List.length_append, List.length_cons] at hcharacters
    rw [List.length_append, Nat.add_comm found.length, ← Nat.add_assoc, List.append_assoc,
      List.cons_append]
    exact hu.comma characters _ _ (by omega) (hv.last characters k rest (by omega))
  comma characters k rest more' left hcharacters hrest := by
    simp only [List.length_append, List.length_cons] at hcharacters
    rw [List.length_append, Nat.add_comm found.length, ← Nat.add_assoc, List.append_assoc,
      List.append_assoc, List.cons_append]
    exact hu.comma characters _ _ (by omega) (hv.comma characters k rest (by omega) hrest)

lemma stops_blanks {b : List Char} (hb : ∀ c ∈ b, isBlank c = true) {c : Char}
    (hc : isNumeric c = false) (rest : List Char) : Stops (b ++ c :: rest) := by
  cases b with
  | nil => exact stops_cons hc rest
  | cons d b =>
    have hd : d = ' ' ∨ d = '\n' ∨ d = '\t' ∨ d = '\r' := by
      have hblank := hb d (List.mem_cons_self ..)
      simpa [isBlank, or_assoc] using hblank
    refine stops_cons ?_ _
    rcases hd with rfl | rfl | rfl | rfl <;> decide

lemma ValuesLocal.upTo {depth : Nat} (h : ValuesLocal depth) {characters : Nat}
    {cs left rest : List Char} {t : Tree} (hvalue : value characters depth cs = (t, left))
    (ht : Readable t) {c : Char} (hc : isNumeric c = false) (hleft : skipBlank left = c :: rest) :
    ∃ u b, cs = u ++ (b ++ c :: rest) ∧ ReadsValue depth u t ∧ ∀ d ∈ b, isBlank d = true := by
  obtain ⟨b, hb, rfl, -⟩ := skipBlank_local hleft
  obtain ⟨u, rfl, hu⟩ := h hvalue ht (stops_blanks hb hc rest)
  exact ⟨u, b, rfl, hu, hb⟩

section

variable {scanner : List Char → Tree × List Char} {k : Nat}
  {cs afterKey afterColon afterValue rest : List Char} {key : Option String} {item : Tree}

lemma members_of_comma (hkey : key? cs = some (key, afterKey))
    (hcolon : colon? afterKey = some afterColon) (hitem : scanner afterColon = (item, afterValue))
    (hwhole : item.whole = true) (hcomma : skipBlank afterValue = ',' :: rest)
    {more : List (Option String × Tree)} {left : Option (List Char)}
    (hrest : members scanner k rest = (more, left)) :
    members scanner (k + 1) cs = ((key, item) :: more, left) := by
  rw [members, hkey]
  simp only [hcolon, Option.map_some, Option.getD_some, hitem, hwhole, if_true, hcomma, hrest]

lemma members_of_end (hkey : key? cs = some (key, afterKey))
    (hcolon : colon? afterKey = some afterColon) (hitem : scanner afterColon = (item, afterValue))
    (hwhole : item.whole = true) (hend : skipBlank afterValue = '}' :: rest) :
    members scanner (k + 1) cs = ([(key, item)], some rest) := by
  rw [members, hkey]
  simp only [hcolon, Option.map_some, Option.getD_some, hitem, hwhole, if_true, hend]

lemma members_skipBlank (scanner : List Char → Tree × List Char) (k : Nat) (cs : List Char) :
    members scanner k (skipBlank cs) = members scanner k cs := by
  cases k with
  | zero => rfl
  | succ k => rw [members, members, key?_skipBlank]

lemma exists_quote_of_members {found : List (Option String × Tree)} {left : Option (List Char)}
    (h : members scanner k cs = (found, left)) (hne : found ≠ []) :
    ∃ after, skipBlank cs = '"' :: after := by
  cases k with
  | zero =>
    cases h
    exact absurd rfl hne
  | succ k =>
    rw [members] at h
    split at h
    · cases h
      exact absurd rfl hne
    · rename_i hkey
      unfold key? at hkey
      split at hkey
      · exact ⟨_, by assumption⟩
      · cases hkey

lemma members_cases {found : List (Option String × Tree)}
    (h : members scanner (k + 1) cs = (found, some rest)) :
    ∃ key afterKey afterColon item afterValue, key? cs = some (key, afterKey) ∧
      colon? afterKey = some afterColon ∧ scanner afterColon = (item, afterValue) ∧
      item.whole = true ∧
      ((∃ afterComma more, skipBlank afterValue = ',' :: afterComma ∧
          members scanner k afterComma = (more, some rest) ∧ found = (key, item) :: more) ∨
        skipBlank afterValue = '}' :: rest ∧ found = [(key, item)]) := by
  rw [members] at h
  split at h
  · cases h
  rename_i key afterKey hkey
  cases hcolon : colon? afterKey with
  | none =>
    rw [hcolon] at h
    cases h
  | some afterColon =>
    rw [hcolon, Option.map_some, Option.getD_some] at h
    simp only at h
    split at h
    · rename_i hwhole
      refine ⟨key, afterKey, afterColon, _, _, hkey, hcolon, rfl, hwhole, ?_⟩
      split at h
      · rename_i afterComma hcomma
        obtain ⟨hfound, hleft⟩ := Prod.mk.inj h
        exact .inl ⟨afterComma, _, hcomma, Prod.ext rfl hleft, hfound.symm⟩
      · rename_i hend
        cases h
        exact .inr ⟨hend, rfl⟩
      · cases h
    · cases h

end

lemma ne_nil_of_members {scanner : List Char → Tree × List Char} {k : Nat} {cs rest : List Char}
    {found : List (Option String × Tree)} (h : members scanner k cs = (found, some rest)) :
    found ≠ [] := by
  cases k with
  | zero => cases h
  | succ k =>
    obtain ⟨key, _, _, item, _, -, -, -, -, ⟨_, more, -, -, rfl⟩ | ⟨-, rfl⟩⟩ := members_cases h
    · exact List.cons_ne_nil _ _
    · exact List.cons_ne_nil _ _

section

variable {depth : Nat}

lemma readsMembers_single {keyText colonText valueText b : List Char} {key : Option String}
    {item : Tree} (hkey : ∀ rest, key? (keyText ++ rest) = some (key, rest))
    (hcolon : ∀ rest, colon? (colonText ++ rest) = some rest)
    (hvalue : ReadsValue depth valueText item) (hwhole : item.whole = true)
    (hb : ∀ c ∈ b, isBlank c = true) :
    ReadsMembers depth (keyText ++ (colonText ++ (valueText ++ b))) [(key, item)] := by
  have hitem {characters : Nat} {c : Char} (hc : isNumeric c = false) (rest : List Char)
      (hlength : (keyText ++ (colonText ++ (valueText ++ b))).length ≤ characters) :
      value characters depth (valueText ++ (b ++ c :: rest)) = (item, b ++ c :: rest) := by
    simp only [List.length_append] at hlength
    exact hvalue.value _ _ (by omega) (stops_blanks hb hc rest)
  have hskip {c : Char} (hc : isBlank c = false) (rest : List Char) :
      skipBlank (b ++ c :: rest) = c :: rest := by
    rw [skipBlank_append_blanks hb, skipBlank_cons hc]
  refine ⟨?_, fun characters k rest hlength => ?_,
    fun characters k rest more left hlength hrest => ?_⟩
  · have hpos := List.length_pos_iff.2 hvalue.ne_nil
    simp only [List.length_append, List.length_singleton]
    omega
  · simp only [List.append_assoc]
    exact members_of_end (hkey _) (hcolon _) (hitem (by decide) rest hlength) hwhole
      (hskip (by decide) rest)
  · simp only [List.append_assoc]
    exact members_of_comma (hkey _) (hcolon _) (hitem (by decide) rest hlength) hwhole
      (hskip (by decide) rest) hrest

/-- Readable members that were scanned are read as these members in another object. -/
theorem members_local (h : ValuesLocal depth) {characters k : Nat} {cs rest : List Char}
    {found : List (Option String × Tree)}
    (hscan : members (value characters depth) k cs = (found, some rest))
    (hread : ∀ m ∈ found, Readable m.2) :
    ∃ u, cs = u ++ '}' :: rest ∧ ReadsMembers depth u found := by
  induction k generalizing cs found with
  | zero => cases hscan
  | succ k ih =>
    obtain ⟨key, afterKey, afterColon, item, afterValue, hkey, hcolon, hitem, hwhole, hnext⟩ :=
      members_cases hscan
    obtain ⟨keyText, -, rfl, hkeyText⟩ := key?_local hkey
    obtain ⟨colonText, rfl, hcolonText⟩ := colon?_local hcolon
    rcases hnext with ⟨afterComma, more, hcomma, hmore, rfl⟩ | ⟨hend, rfl⟩
    · obtain ⟨hreadable, hrest⟩ := List.forall_mem_cons.1 hread
      obtain ⟨valueText, b, rfl, hvalueText, hb⟩ := h.upTo hitem hreadable (by decide) hcomma
      obtain ⟨u, rfl, hu⟩ := ih hmore hrest
      have hsingle := readsMembers_single hkeyText hcolonText hvalueText hwhole hb
      exact ⟨_, by simp, hsingle.append hu⟩
    · have hreadable := List.forall_mem_singleton.1 hread
      obtain ⟨valueText, b, rfl, hvalueText, hb⟩ := h.upTo hitem hreadable (by decide) hend
      exact ⟨_, by simp, readsMembers_single hkeyText hcolonText hvalueText hwhole hb⟩

end

section

variable {scanner : List Char → Tree × List Char} {k : Nat} {cs afterValue rest : List Char}
  {item : Tree}

lemma items_of_comma (hitem : scanner cs = (item, afterValue)) (hwhole : item.whole = true)
    (hcomma : skipBlank afterValue = ',' :: rest) {more : List Tree} {left : Option (List Char)}
    (hrest : items scanner k rest = (more, left)) :
    items scanner (k + 1) cs = (item :: more, left) := by
  rw [items, hitem]
  simp only [hwhole, if_true, hcomma, hrest]

lemma items_of_end (hitem : scanner cs = (item, afterValue)) (hwhole : item.whole = true)
    (hend : skipBlank afterValue = ']' :: rest) :
    items scanner (k + 1) cs = ([item], some rest) := by
  rw [items, hitem]
  simp only [hwhole, if_true, hend]

lemma items_cases {found : List Tree} (h : items scanner (k + 1) cs = (found, some rest)) :
    ∃ item afterValue, scanner cs = (item, afterValue) ∧ item.whole = true ∧
      ((∃ afterComma more, skipBlank afterValue = ',' :: afterComma ∧
          items scanner k afterComma = (more, some rest) ∧ found = item :: more) ∨
        skipBlank afterValue = ']' :: rest ∧ found = [item]) := by
  rw [items] at h
  simp only at h
  split at h
  · rename_i hwhole
    refine ⟨_, _, rfl, hwhole, ?_⟩
    split at h
    · rename_i afterComma hcomma
      obtain ⟨hfound, hleft⟩ := Prod.mk.inj h
      exact .inl ⟨afterComma, _, hcomma, Prod.ext rfl hleft, hfound.symm⟩
    · rename_i hend
      cases h
      exact .inr ⟨hend, rfl⟩
    · cases h
  · cases h

end

theorem items_local {depth : Nat} (h : ValuesLocal depth) {characters k : Nat} {cs rest : List Char}
    {found : List Tree} (hscan : items (value characters depth) k cs = (found, some rest))
    (hread : ∀ t ∈ found, Readable t) : ∃ u, cs = u ++ rest ∧ ReadsItems depth u found := by
  induction k generalizing cs found with
  | zero => cases hscan
  | succ k ih =>
    obtain ⟨item, afterValue, hitem, hwhole, hnext⟩ := items_cases hscan
    have hskip {b : List Char} (hb : ∀ d ∈ b, isBlank d = true) {c : Char} (hc : isBlank c = false)
        (rest : List Char) : skipBlank (b ++ c :: rest) = c :: rest := by
      rw [skipBlank_append_blanks hb, skipBlank_cons hc]
    rcases hnext with ⟨afterComma, more, hcomma, hmore, rfl⟩ | ⟨hend, rfl⟩
    · obtain ⟨hreadable, hrest⟩ := List.forall_mem_cons.1 hread
      obtain ⟨valueText, b, rfl, hvalueText, hb⟩ := h.upTo hitem hreadable (by decide) hcomma
      obtain ⟨u, rfl, hu⟩ := ih hmore hrest
      refine ⟨valueText ++ (b ++ ',' :: u), by simp, ?_, fun characters' k' rest' hlength => ?_⟩
      · have hmore := hu.length
        simp only [List.length_append, List.length_cons]
        omega
      · simp only [List.length_append, List.length_cons] at hlength
        simp only [List.append_assoc, List.cons_append]
        exact items_of_comma (hvalueText.value _ _ (by omega) (stops_blanks hb (by decide) _))
          hwhole (hskip hb (by decide) _) (hu.items _ k' rest' (by omega))
    · have hreadable := List.forall_mem_singleton.1 hread
      obtain ⟨valueText, b, rfl, hvalueText, hb⟩ := h.upTo hitem hreadable (by decide) hend
      refine ⟨valueText ++ (b ++ [']']), by simp, ?_, fun characters' k' rest' hlength => ?_⟩
      · have hpos := List.length_pos_iff.2 hvalueText.ne_nil
        simp only [List.length_append, List.length_singleton]
        omega
      · simp only [List.length_append, List.length_singleton] at hlength
        simp only [List.append_assoc, List.singleton_append]
        exact items_of_end (hvalueText.value _ _ (by omega) (stops_blanks hb (by decide) _)) hwhole
          (hskip hb (by decide) _)

section

variable {characters depth : Nat} {b u : List Char} {t : Tree}

lemma value_append_blanks (hb : ∀ c ∈ b, isBlank c = true) (cs : List Char) :
    value characters depth (b ++ cs) = value characters depth cs := by
  rw [value.eq_def, value.eq_def _ _ cs]
  simp only [skipBlank_append_blanks hb]

lemma value_square_blanks (hb : ∀ c ∈ b, isBlank c = true) (cs : List Char) :
    value characters (depth + 1) ('[' :: (b ++ cs)) = value characters (depth + 1) ('[' :: cs) := by
  rw [value.eq_def, value.eq_def _ _ ('[' :: cs)]
  simp only [skipBlank_cons (show isBlank '[' = false by decide), skipBlank_append_blanks hb]

lemma value_curly_blanks (hb : ∀ c ∈ b, isBlank c = true) (cs : List Char) :
    value characters (depth + 1) ('{' :: (b ++ cs)) = value characters (depth + 1) ('{' :: cs) := by
  rw [value.eq_def, value.eq_def _ _ ('{' :: cs)]
  simp only [skipBlank_cons (show isBlank '{' = false by decide), skipBlank_append_blanks hb]

lemma ReadsValue.blanks (h : ReadsValue depth u t) (hb : ∀ c ∈ b, isBlank c = true) :
    ReadsValue depth (b ++ u) t where
  ne_nil := by simp [h.ne_nil]
  value characters rest hlength hrest := by
    rw [List.length_append] at hlength
    rw [List.append_assoc, value_append_blanks hb]
    exact h.value _ _ (by omega) hrest

lemma readsValue_array_nil : ReadsValue (depth + 1) ['[', ']'] (.array [] true) :=
  ⟨List.cons_ne_nil _ _, fun _ rest _ _ => value_array_nil rest⟩

lemma readsValue_object_nil : ReadsValue (depth + 1) ['{', '}'] (.object [] true) :=
  ⟨List.cons_ne_nil _ _, fun _ rest _ _ => value_object_nil rest⟩

lemma ReadsValue.square (h : ReadsValue (depth + 1) ('[' :: u) t) (hb : ∀ c ∈ b, isBlank c = true) :
    ReadsValue (depth + 1) ('[' :: (b ++ u)) t where
  ne_nil := List.cons_ne_nil _ _
  value characters rest hlength hrest := by
    rw [List.length_cons, List.length_append] at hlength
    rw [List.cons_append, List.append_assoc, value_square_blanks hb]
    exact h.value _ _ (by rw [List.length_cons]; omega) hrest

lemma ReadsValue.curly (h : ReadsValue (depth + 1) ('{' :: u) t) (hb : ∀ c ∈ b, isBlank c = true) :
    ReadsValue (depth + 1) ('{' :: (b ++ u)) t where
  ne_nil := List.cons_ne_nil _ _
  value characters rest hlength hrest := by
    rw [List.length_cons, List.length_append] at hlength
    rw [List.cons_append, List.append_assoc, value_curly_blanks hb]
    exact h.value _ _ (by rw [List.length_cons]; omega) hrest

lemma ReadsItems.array {c : Char} {found : List Tree} (h : ReadsItems depth (c :: u) found)
    (hblank : isBlank c = false) (hclose : c ≠ ']') :
    ReadsValue (depth + 1) ('[' :: c :: u) (.array found true) where
  ne_nil := List.cons_ne_nil _ _
  value characters rest hlength _ := by
    have hcount := h.length
    simp only [List.length_cons] at hlength hcount
    have hitems := h.items characters (characters - found.length) rest
      (by rw [List.length_cons]; omega)
    rw [Nat.sub_add_cancel (by omega)] at hitems
    exact value_array hblank hclose hitems

lemma ReadsMembers.object {found : List (Option String × Tree)} (h : ReadsMembers depth u found)
    (hne : found ≠ []) : ReadsValue (depth + 1) ('{' :: (u ++ ['}'])) (.object found true) where
  ne_nil := List.cons_ne_nil _ _
  value characters rest hlength _ := by
    have hcount := h.length
    simp only [List.length_cons, List.length_append] at hlength
    have hmembers := h.last characters (characters - found.length) rest (by omega)
    rw [Nat.sub_add_cancel (by omega)] at hmembers
    obtain ⟨after, hafter⟩ := exists_quote_of_members hmembers hne
    obtain ⟨b, hb, hcs⟩ := exists_blanks (u ++ '}' :: rest)
    rw [List.cons_append, List.append_assoc, List.singleton_append, hcs, value_curly_blanks hb,
      hafter]
    rw [← members_skipBlank, hafter] at hmembers
    exact value_object (by decide) (by decide) hmembers

lemma not_readable_passed (characters : Nat) (bracket : Bracket) (cs : List Char) :
    ¬ Readable (passed characters bracket cs).1 := by
  rintro ⟨v, hv⟩
  rw [passed] at hv
  split at hv <;> cases hv

lemma readsValue_scalar {cs rest : List Char}
    (h : (scalar? cs).getD (.fault, []) = (t, rest)) (ht : Readable t) (hrest : Stops rest) :
    ∃ u, cs = u ++ rest ∧ ReadsValue depth u t := by
  cases hscalar : scalar? cs with
  | none =>
    rw [hscalar] at h
    cases h
    obtain ⟨v, hv⟩ := ht
    cases hv
  | some p =>
    rw [hscalar] at h
    cases h
    obtain ⟨c, u, rfl, hsquare, hcurly, hblank, hu⟩ := scalar?_local hscalar hrest
    refine ⟨c :: u, rfl, List.cons_ne_nil _ _, fun characters rest' _ hrest' => ?_⟩
    exact value_scalar hblank hsquare hcurly (hu rest' hrest')

lemma readsValue_square (h : ValuesLocal depth) {cs rest : List Char}
    (hscan : value characters (depth + 1) ('[' :: cs) = (t, rest)) (ht : Readable t) :
    ∃ u, cs = u ++ rest ∧ ReadsValue (depth + 1) ('[' :: u) t := by
  obtain ⟨b, hb, hcs⟩ := exists_blanks cs
  rw [value.eq_def] at hscan
  simp only [skipBlank_cons (show isBlank '[' = false by decide)] at hscan
  split at hscan
  · rename_i hend
    cases hscan
    rw [hend] at hcs
    exact ⟨b ++ [']'], by simp [hcs], readsValue_array_nil.square hb⟩
  · rename_i hnotEnd
    split at hscan
    · rename_i found left hitems
      cases hscan
      obtain ⟨v, hv⟩ := ht
      rw [Tree.value?, if_pos rfl] at hv
      obtain ⟨vs, hvs, -⟩ := Option.map_eq_some_iff.1 hv
      obtain ⟨u, hu, hreads⟩ := items_local h hitems (readable_of_itemValues? hvs)
      rw [hu] at hcs hnotEnd
      cases u with
      | nil => exact absurd hreads.length (Nat.not_lt_zero _)
      | cons c u =>
        have hclose : c ≠ ']' := by
          rintro rfl
          exact hnotEnd _ rfl
        refine ⟨b ++ c :: u, by simp [hcs], ?_⟩
        exact (hreads.array (isBlank_of_skipBlank hu) hclose).square hb
    · cases hscan
      obtain ⟨v, hv⟩ := ht
      cases hv

lemma curly_cases {cs rest : List Char}
    (h : value characters (depth + 1) ('{' :: cs) = (t, rest)) (ht : Readable t) :
    (t = .object [] true ∧ skipBlank cs = '}' :: rest) ∨
      ∃ found, t = .object found true ∧
        members (value characters depth) characters cs = (found, some rest) := by
  rw [value.eq_def] at h
  simp only [skipBlank_cons (show isBlank '{' = false by decide)] at h
  split at h
  · rename_i hend
    cases h
    exact .inl ⟨rfl, hend⟩
  · split at h
    · rename_i found left hmembers
      cases h
      rw [members_skipBlank] at hmembers
      exact .inr ⟨found, rfl, hmembers⟩
    · cases h
      obtain ⟨v, hv⟩ := ht
      cases hv

lemma readable_of_object {found : List (Option String × Tree)} {closed : Bool}
    (h : Readable (.object found closed)) : ∀ m ∈ found, Readable m.2 := by
  obtain ⟨v, hv⟩ := h
  rw [Tree.value?] at hv
  split at hv
  · obtain ⟨vs, hvs, -⟩ := Option.map_eq_some_iff.1 hv
    obtain ⟨ms, rfl, -, hread⟩ := exists_readable_of_memberValues? hvs
    exact List.forall_mem_map.2 hread
  · cases hv

lemma readsValue_curly (h : ValuesLocal depth) {cs rest : List Char}
    (hscan : value characters (depth + 1) ('{' :: cs) = (t, rest)) (ht : Readable t) :
    ∃ u, cs = u ++ rest ∧ ReadsValue (depth + 1) ('{' :: u) t := by
  rcases curly_cases hscan ht with ⟨rfl, hend⟩ | ⟨found, rfl, hmembers⟩
  · obtain ⟨b, hb, hcs⟩ := exists_blanks cs
    rw [hend] at hcs
    exact ⟨b ++ ['}'], by simp [hcs], readsValue_object_nil.curly hb⟩
  · obtain ⟨u, rfl, hreads⟩ := members_local h hmembers (readable_of_object ht)
    exact ⟨u ++ ['}'], by simp, hreads.object (ne_nil_of_members hmembers)⟩

lemma value_eq_scalar {c : Char} (hblank : isBlank c = false) (hsquare : c ≠ '[')
    (hcurly : c ≠ '{') (cs : List Char) :
    value characters depth (c :: cs) = (scalar? (c :: cs)).getD (.fault, []) := by
  rw [value.eq_def]
  simp only [skipBlank_cons hblank]
  split
  · simp_all
  · simp_all
  · rfl

lemma value_nil : value characters depth [] = (.fault, []) := by
  rw [value.eq_def]
  rfl

lemma not_readable_bracket (characters : Nat) {c : Char} (hc : c = '[' ∨ c = '{')
    (cs : List Char) :
    ¬ Readable (value characters 0 (c :: cs)).1 := by
  rw [value.eq_def]
  rcases hc with rfl | rfl
  · simp only [skipBlank_cons (show isBlank '[' = false by decide)]
    exact not_readable_passed _ _ _
  · simp only [skipBlank_cons (show isBlank '{' = false by decide)]
    exact not_readable_passed _ _ _

/-- It is enough to look at values that begin with a bracket. -/
lemma valuesLocal_of_brackets (h : ∀ {characters : Nat} {c : Char} {cs rest : List Char} {t : Tree},
    c = '[' ∨ c = '{' → value characters depth (c :: cs) = (t, rest) → Readable t →
      ∃ u, cs = u ++ rest ∧ ReadsValue depth (c :: u) t) : ValuesLocal depth := by
  intro characters cs rest t hscan ht hrest
  obtain ⟨b, hb, hcs⟩ := exists_blanks cs
  rw [hcs, value_append_blanks hb] at hscan
  have hvalue : ∃ u, skipBlank cs = u ++ rest ∧ ReadsValue depth u t := by
    cases hskip : skipBlank cs with
    | nil =>
      rw [hskip, value_nil] at hscan
      cases hscan
      obtain ⟨v, hv⟩ := ht
      cases hv
    | cons c after =>
      rw [hskip] at hscan
      by_cases hc : c = '[' ∨ c = '{'
      · obtain ⟨u, rfl, hu⟩ := h hc hscan ht
        exact ⟨c :: u, rfl, hu⟩
      · obtain ⟨hsquare, hcurly⟩ := not_or.1 hc
        rw [value_eq_scalar (isBlank_of_skipBlank hskip) hsquare hcurly] at hscan
        exact readsValue_scalar hscan ht hrest
  obtain ⟨u, hu, hreads⟩ := hvalue
  exact ⟨b ++ u, by rw [hcs, hu, List.append_assoc], hreads.blanks hb⟩

end

/-- The value that a text begins with does not depend on the document around it, if it is readable
and what follows it does not go on with a number. -/
theorem value_local (depth : Nat) : ValuesLocal depth := by
  induction depth with
  | zero =>
    refine valuesLocal_of_brackets fun {characters _ cs _ _} hc hscan ht => ?_
    have hbracket := not_readable_bracket characters hc cs
    rw [hscan] at hbracket
    exact absurd ht hbracket
  | succ depth ih =>
    refine valuesLocal_of_brackets fun hc hscan ht => ?_
    rcases hc with rfl | rfl
    · exact readsValue_square ih hscan ht
    · exact readsValue_curly ih hscan ht

lemma ReadsMembers.blanks {depth : Nat} {u b : List Char} {found : List (Option String × Tree)}
    (h : ReadsMembers depth u found) (hb : ∀ c ∈ b, isBlank c = true) :
    ReadsMembers depth (b ++ u) found := by
  have hmembers (characters k : Nat) (cs : List Char) :
      members (Scan.value characters depth) k (b ++ cs) =
        members (Scan.value characters depth) k cs := by
    rw [← members_skipBlank, skipBlank_append_blanks hb, members_skipBlank]
  refine ⟨?_, fun characters k rest hlength => ?_,
    fun characters k rest more left hlength hrest => ?_⟩
  · have hcount := h.length
    rw [List.length_append]
    omega
  · rw [List.length_append] at hlength
    rw [List.append_assoc, hmembers]
    exact h.last characters k rest (by omega)
  · rw [List.length_append] at hlength
    rw [List.append_assoc, hmembers]
    exact h.comma characters k rest (by omega) hrest

theorem readsMembers_separated {depth : Nat} {pieces : List (List Char)}
    {found : List (List (Option String × Tree))} (hne : pieces ≠ [])
    (h : List.Forall₂ (ReadsMembers depth) pieces found) :
    ReadsMembers depth (separated pieces) found.flatten := by
  induction h with
  | nil => exact absurd rfl hne
  | @cons piece ms pieces found hpiece hpieces ih =>
    cases hpieces with
    | nil =>
      rw [List.flatten_singleton, separated]
      exact hpiece
    | cons =>
      rw [List.flatten_cons, separated]
      · exact hpiece.append (ih (List.cons_ne_nil _ _))
      · exact List.cons_ne_nil _ _

end SignedNames.Json.Scan

namespace SignedNames.Json
open Scan

def objectText (pieces : List (List Char)) : String :=
  String.ofList ('{' :: (separated pieces ++ ['}']))

lemma toList_objectText (pieces : List (List Char)) :
    (objectText pieces).toList = '{' :: (separated pieces ++ ['}']) := String.toList_ofList

/-- The depth that is left for the members of a document's object. -/
def memberDepth : Nat := nestingLimit - 1

lemma eq_nil_of_closing {cs u rest : List Char} (h : cs ++ ['}'] = u ++ '}' :: rest)
    (hrest : skipBlank rest = []) : rest = [] ∧ cs = u := by
  rcases List.eq_nil_or_concat rest with rfl | ⟨init, last, rfl⟩
  · exact ⟨rfl, List.append_cancel_right h⟩
  · have hlast : '}' = last := by
      rw [List.concat_eq_append, ← List.cons_append, ← List.append_assoc] at h
      exact List.singleton_inj.1 (List.append_inj' h rfl).2
    have hblank := List.dropWhile_eq_nil_iff.1 hrest last (by simp)
    rw [← hlast] at hblank
    cases hblank

/-- A text that is read as the members of an object is read so in any object. -/
theorem readsMembers_of_scan {piece : List Char} {found : List (Option String × Tree)}
    (hne : found ≠ []) (hread : Readable (.object found true))
    (h : scan (objectText [piece]) = (.object found true, true)) :
    ReadsMembers memberDepth piece found := by
  rw [scan, toList_objectText, separated] at h
  generalize hvalue : value ('{' :: (piece ++ ['}'])).length nestingLimit
    ('{' :: (piece ++ ['}'])) = scanned at h
  obtain ⟨t, rest⟩ := scanned
  obtain ⟨rfl, hclean⟩ := Prod.mk.inj h
  change value _ (memberDepth + 1) _ = _ at hvalue
  rcases curly_cases hvalue hread with ⟨hnil, -⟩ | ⟨found', hfound, hmembers⟩
  · cases hnil
    exact absurd rfl hne
  · cases hfound
    obtain ⟨u, hu, hreads⟩ :=
      members_local (value_local memberDepth) hmembers (readable_of_object hread)
    obtain ⟨-, rfl⟩ := eq_nil_of_closing hu (List.isEmpty_iff.1 hclean)
    exact hreads

/-- Members that are read by themselves are read together. -/
theorem scan_objectText {pieces : List (List Char)} {found : List (List (Option String × Tree))}
    (hne : found.flatten ≠ []) (h : List.Forall₂ (ReadsMembers memberDepth) pieces found) :
    scan (objectText pieces) = (.object found.flatten true, true) := by
  have hpieces : pieces ≠ [] := by
    rintro rfl
    cases h
    exact hne rfl
  have hobject := (readsMembers_separated hpieces h).object hne
  have hwhole := hobject.value (objectText pieces).toList.length []
    (by rw [toList_objectText]) (by rintro _ ⟨⟩)
  rw [List.append_nil, ← toList_objectText] at hwhole
  have hvalue : value (objectText pieces).toList.length nestingLimit (objectText pieces).toList =
      (.object found.flatten true, []) := hwhole
  rw [scan, hvalue]
  rfl

def memberText (m : String × Value) : List Char := quoted m.1 ++ ':' :: m.2.chars

lemma render_object (ms : List (String × Value)) :
    (Value.object ms).render = objectText (ms.map memberText) := by
  rw [Value.render, Value.chars, memberChars_eq]
  rfl

theorem readsMembers_memberText {m : String × Value} (hwithin : m.2.Within memberDepth)
    (hordered : m.2.Ordered) :
    ReadsMembers memberDepth (memberText m) [(some m.1, m.2.tree)] := by
  have hobject : (Value.object [m]).Within nestingLimit :=
    .object (List.forall_mem_singleton.2 hwithin)
  have hread : Readable (.object [(some m.1, m.2.tree)] true) := by
    refine ⟨.object [m], ?_⟩
    have hvalue := (Value.Ordered.object (List.pairwise_singleton _ m)
      (List.forall_mem_singleton.2 hordered)).value?_tree
    exact hvalue
  refine readsMembers_of_scan (List.cons_ne_nil _ _) hread ?_
  have hscan := scan_render hobject
  rw [render_object] at hscan
  exact hscan

end SignedNames.Json
