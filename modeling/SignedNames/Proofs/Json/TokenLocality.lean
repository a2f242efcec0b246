import Mathlib
import SignedNames.Proofs.Json.ReadBack

/-!
# Parts of a document in another place

Numbers, words, quoted texts, keys and colons are scanned from the characters that they take, and
anything may follow these characters that does not go on with a number.
-/
namespace SignedNames.Json.Scan

def isNumeric (c : Char) : Bool := isDigit c || c = '.' || c = 'e' || c = 'E' || c = '+' || c = '-'

/-- The text does not go on with a number. -/
def Stops (cs : List Char) : Prop := ∀ c ∈ cs.head?, isNumeric c = false

lemma stops_cons {c : Char} (h : isNumeric c = false) (cs : List Char) : Stops (c :: cs) := by
  rintro _ ⟨⟩
  exact h

section

variable {w : List Char}

lemma Stops.digits (h : Stops w) : digits w = ([], w) := by
  cases w with
  | nil => rfl
  | cons c w =>
    have hc : isDigit c = false := by
      have hc := h c rfl
      simp only [isNumeric, Bool.or_eq_false_iff] at hc
      exact hc.1.1.1.1.1
    simp [Scan.digits, hc]

lemma digits_append (h : Stops w) (v : List Char) :
    digits (v ++ w) = ((digits v).1, (digits v).2 ++ w) := by
  induction v with
  | nil => exact h.digits
  | cons c v ih =>
    cases hc : isDigit c with
    | false => simp [digits, hc]
    | true =>
      simp only [digits, Prod.mk.injEq, List.cons_append, List.takeWhile_cons_of_pos hc,
        List.dropWhile_cons_of_pos hc, List.map_cons] at ih ⊢
      exact ⟨by rw [ih.1], ih.2⟩

lemma Stops.ne {c : Char} {cs : List Char} (h : Stops (c :: cs)) {d : Char}
    (hd : isNumeric d = true) : c ≠ d := by
  rintro rfl
  rw [h c rfl] at hd
  cases hd

lemma fraction?_cons_of_ne {c : Char} (h : c ≠ '.') (cs : List Char) :
    fraction? (c :: cs) = some (none, c :: cs) := by
  rw [fraction?.eq_def]
  split
  · rename_i heq
    cases heq
    exact absurd rfl h
  · rfl

lemma fraction?_append (h : Stops w) (v : List Char) :
    fraction? (v ++ w) = (fraction? v).map fun p => (p.1, p.2 ++ w) := by
  cases v with
  | nil =>
    cases w with
    | nil => rfl
    | cons c w => exact fraction?_cons_of_ne (h.ne (by decide)) w
  | cons c v =>
    by_cases hpoint : c = '.'
    · subst hpoint
      rw [List.cons_append, fraction?, fraction?, digits_append h]
      obtain ⟨_ | ⟨d, ds⟩, left⟩ := digits v <;> rfl
    · rw [List.cons_append, fraction?_cons_of_ne hpoint, fraction?_cons_of_ne hpoint]
      rfl

lemma exponentDigits?_append (h : Stops w) (v : List Char) :
    exponentDigits? (v ++ w) = (exponentDigits? v).map fun p => (p.1, p.2 ++ w) := by
  rw [exponentDigits?, exponentDigits?, digits_append h]
  obtain ⟨_ | ⟨d, ds⟩, left⟩ := digits v <;> rfl

/-- The digits of an exponent behind its mark, and its sign if it has one. -/
def signedExponent? (cs : List Char) : Option (Option Int × List Char) :=
  match cs with
  | '-' :: rest => (exponentDigits? rest).map fun (n, left) => (some (-Int.ofNat n), left)
  | '+' :: rest => (exponentDigits? rest).map fun (n, left) => (some (Int.ofNat n), left)
  | _ => (exponentDigits? cs).map fun (n, left) => (some (Int.ofNat n), left)

lemma exponent?_cons (c : Char) (cs : List Char) :
    exponent? (c :: cs) =
      if c = 'e' ∨ c = 'E' then signedExponent? cs else some (none, c :: cs) := by
  rw [exponent?.eq_def]
  simp only
  split
  · exact (signedExponent?.eq_def cs).symm
  · rfl

lemma signedExponent?_cons_of_ne {c : Char} (hminus : c ≠ '-') (hplus : c ≠ '+') (cs : List Char) :
    signedExponent? (c :: cs) =
      (exponentDigits? (c :: cs)).map fun p => (some (Int.ofNat p.1), p.2) := by
  rw [signedExponent?.eq_def]
  split
  · rename_i heq
    cases heq
    exact absurd rfl hminus
  · rename_i heq
    cases heq
    exact absurd rfl hplus
  · rfl

lemma signedExponent?_append (h : Stops w) (v : List Char) :
    signedExponent? (v ++ w) = (signedExponent? v).map fun p => (p.1, p.2 ++ w) := by
  have hdigits (cs : List Char) (sign : Nat → Int) :
      (exponentDigits? (cs ++ w)).map (fun p => (some (sign p.1), p.2)) =
        ((exponentDigits? cs).map fun p => (some (sign p.1), p.2)).map
          fun p => (p.1, p.2 ++ w) := by
    rw [exponentDigits?_append h, Option.map_map, Option.map_map]
    rfl
  cases v with
  | nil =>
    cases w with
    | nil => rfl
    | cons c w =>
      rw [List.nil_append, signedExponent?_cons_of_ne (h.ne (by decide)) (h.ne (by decide))]
      exact hdigits [] Int.ofNat
  | cons c v =>
    by_cases hminus : c = '-'
    · subst hminus
      exact hdigits v fun n => -Int.ofNat n
    · by_cases hplus : c = '+'
      · subst hplus
        exact hdigits v Int.ofNat
      · rw [List.cons_append, signedExponent?_cons_of_ne hminus hplus,
          signedExponent?_cons_of_ne hminus hplus]
        exact hdigits (c :: v) Int.ofNat

lemma exponent?_append (h : Stops w) (v : List Char) :
    exponent? (v ++ w) = (exponent? v).map fun p => (p.1, p.2 ++ w) := by
  cases v with
  | nil =>
    cases w with
    | nil => rfl
    | cons c w =>
      rw [List.nil_append, exponent?_cons,
        if_neg (not_or.2 ⟨h.ne (by decide), h.ne (by decide)⟩)]
      rfl
  | cons c v =>
    rw [List.cons_append, exponent?_cons, exponent?_cons]
    split
    · exact signedExponent?_append h v
    · rfl

theorem unsigned_append (h : Stops w) (negative : Bool) (v : List Char) :
    unsigned negative (v ++ w) = (unsigned negative v).map fun p => (p.1, p.2 ++ w) := by
  rw [unsigned, unsigned, digits_append h]
  obtain ⟨_ | ⟨d, ds⟩, left⟩ := digits v
  · rfl
  simp only
  split
  · rfl
  rw [fraction?_append h]
  obtain _ | ⟨fraction, left⟩ := fraction? left
  · rfl
  simp only [Option.map_some, exponent?_append h, Option.map_map]
  rfl

end

/-! What is left is the end of the text. -/

lemma digits_suffix (cs : List Char) : (digits cs).2 <:+ cs := List.dropWhile_suffix _

lemma fraction?_suffix {cs left : List Char} {fraction : Option (List Nat)}
    (h : fraction? cs = some (fraction, left)) : left <:+ cs := by
  unfold fraction? at h
  split at h
  · rename_i rest
    have hdigits := digits_suffix rest
    split at h
    · cases h
    · rename_i hds
      cases h
      rw [hds] at hdigits
      exact hdigits.trans (List.suffix_cons _ _)
  · cases h
    exact List.suffix_refl _

lemma exponentDigits?_suffix {cs left : List Char} {n : Nat}
    (h : exponentDigits? cs = some (n, left)) : left <:+ cs := by
  have hdigits := digits_suffix cs
  unfold exponentDigits? at h
  split at h
  · cases h
  · rename_i hds
    cases h
    rw [hds] at hdigits
    exact hdigits

lemma exponent?_suffix {cs left : List Char} {e : Option Int}
    (h : exponent? cs = some (e, left)) : left <:+ cs := by
  have hdigits {rest : List Char} (sign : Nat → Int)
      (h : (exponentDigits? rest).map (fun p => (some (sign p.1), p.2)) = some (e, left)) :
      left <:+ rest := by
    obtain ⟨⟨n, left⟩, hn, hp⟩ := Option.map_eq_some_iff.1 h
    cases hp
    exact exponentDigits?_suffix hn
  cases cs with
  | nil =>
    cases h
    exact List.suffix_refl _
  | cons c cs =>
    rw [exponent?_cons] at h
    split at h
    · unfold signedExponent? at h
      split at h
      · exact (hdigits (fun n => -Int.ofNat n) h).trans
          ((List.suffix_cons _ _).trans (List.suffix_cons _ _))
      · exact (hdigits Int.ofNat h).trans ((List.suffix_cons _ _).trans (List.suffix_cons _ _))
      · exact (hdigits Int.ofNat h).trans (List.suffix_cons _ _)
    · cases h
      exact List.suffix_refl _

lemma unsigned_suffix {negative : Bool} {cs left : List Char} {n : Option Number}
    (h : unsigned negative cs = some (n, left)) : left <:+ cs := by
  have hdigits := digits_suffix cs
  unfold unsigned at h
  split at h
  · cases h
  · rename_i hds
    rw [hds] at hdigits
    split at h
    · cases h
    · split at h
      · cases h
      · rename_i hfraction
        obtain ⟨⟨e, left⟩, he, hp⟩ := Option.map_eq_some_iff.1 h
        cases hp
        exact (exponent?_suffix he).trans ((fraction?_suffix hfraction).trans hdigits)

lemma isDigit_of_unsigned {negative : Bool} {c : Char} {cs : List Char}
    {p : Option Number × List Char} (h : unsigned negative (c :: cs) = some p) :
    isDigit c = true := by
  cases hc : isDigit c with
  | true => rfl
  | false =>
    have hdigits : digits (c :: cs) = ([], c :: cs) := by simp [digits, hc]
    rw [unsigned, hdigits] at h
    cases h

theorem unsigned_local {negative : Bool} {cs rest : List Char} {n : Option Number}
    (h : unsigned negative cs = some (n, rest)) (hrest : Stops rest) :
    ∃ u, cs = u ++ rest ∧
      ∀ rest', Stops rest' → unsigned negative (u ++ rest') = some (n, rest') := by
  obtain ⟨u, w, hcs, hu, hw⟩ : ∃ u w, cs = u ++ w ∧ (∀ c ∈ u, isNumeric c = true) ∧ Stops w := by
    refine ⟨cs.takeWhile isNumeric, cs.dropWhile isNumeric, List.takeWhile_append_dropWhile.symm,
      fun c hc => List.mem_takeWhile_imp hc, fun c hc => ?_⟩
    have hhead := List.head?_dropWhile_not isNumeric cs
    rw [Option.mem_def.1 hc] at hhead
    exact hhead
  rw [hcs, unsigned_append hw] at h
  obtain ⟨⟨n, left⟩, hn, hp⟩ := Option.map_eq_some_iff.1 h
  cases hp
  have hleft : left = [] := by
    cases left with
    | nil => rfl
    | cons c left =>
      have hc := hu c ((unsigned_suffix hn).subset (List.mem_cons_self ..))
      rw [hrest c rfl] at hc
      cases hc
  rw [hleft] at hn ⊢
  exact ⟨u, hcs, fun rest' hrest' => by rw [unsigned_append hrest', hn]; rfl⟩

lemma word?_append (word rest : List Char) : word? word (word ++ rest) = some rest := by
  induction word with
  | nil => rfl
  | cons c word ih => rw [List.cons_append, word?, if_pos rfl, ih]

lemma eq_of_word? {word cs rest : List Char} (h : word? word cs = some rest) :
    cs = word ++ rest := by
  induction word generalizing cs with
  | nil =>
    cases h
    rfl
  | cons c word ih =>
    cases cs with
    | nil => cases h
    | cons d cs =>
      rw [word?] at h
      split at h
      · rename_i hcd
        rw [hcd, ih h, List.cons_append]
      · cases h

/-- The characters that stand for a piece, wherever they are. -/
def Spells (p : List Char) (piece : Piece) : Prop :=
  ∀ rest, quotedPieces (p ++ rest) = (quotedPieces rest).map fun q => (piece :: q.1, q.2)

lemma spells_unit {a b c d : Char} {n : Nat} (h : unit? a b c d = some n) :
    Spells ['\\', 'u', a, b, c, d] (.unit n) := by
  intro rest
  change quotedPieces ('\\' :: 'u' :: a :: b :: c :: d :: rest) = _
  rw [quotedPieces, h]

lemma spells_escaped {c d : Char} (h : escaped? c = some d) : Spells ['\\', c] (.char d) := by
  have hunit : c ≠ 'u' := by
    rintro rfl
    cases h
  intro rest
  change quotedPieces ('\\' :: c :: rest) = _
  rw [quotedPieces.eq_4 c rest fun _ _ _ _ _ hu _ => hunit hu, h]

lemma spells_plain {c : Char} (hquote : c ≠ '"') (h : ¬ (c = '\\' ∨ c.toNat < 0x20)) :
    Spells [c] (.char c) := by
  have hslash : c ≠ '\\' := fun hslash => h (.inl hslash)
  intro rest
  change quotedPieces (c :: rest) = _
  rw [quotedPieces.eq_5 c rest hquote (fun _ _ _ _ _ hs _ => hslash hs) fun _ _ hs _ => hslash hs,
    if_neg h]

lemma quotedPieces_cases {cs left : List Char} {pieces : List Piece}
    (h : quotedPieces cs = some (pieces, left)) :
    (pieces = [] ∧ cs = '"' :: left) ∨
      ∃ p piece rest more, cs = p ++ rest ∧ pieces = piece :: more ∧ Spells p piece ∧
        quotedPieces rest = some (more, left) := by
  have hpiece {p rest : List Char} {piece : Piece} (hp : Spells p piece)
      (h : (quotedPieces rest).map (fun q => (piece :: q.1, q.2)) = some (pieces, left)) :
      ∃ p' piece rest' more, p ++ rest = p' ++ rest' ∧ pieces = piece :: more ∧ Spells p' piece ∧
        quotedPieces rest' = some (more, left) := by
    obtain ⟨⟨more, left⟩, hmore, hq⟩ := Option.map_eq_some_iff.1 h
    cases hq
    exact ⟨p, piece, rest, more, rfl, rfl, hp, hmore⟩
  unfold quotedPieces at h
  split at h
  · cases h
  · cases h
    exact .inl ⟨rfl, rfl⟩
  · split at h
    · cases h
    · rename_i hunit
      exact .inr (hpiece (spells_unit hunit) h)
  · split at h
    · cases h
    · rename_i hescaped
      exact .inr (hpiece (spells_escaped hescaped) h)
  · rename_i hquote _ _
    split at h
    · cases h
    · rename_i hplain
      exact .inr (hpiece (spells_plain hquote hplain) h)

lemma quotedPieces_local {cs rest : List Char} {pieces : List Piece}
    (h : quotedPieces cs = some (pieces, rest)) :
    ∃ u, cs = u ++ rest ∧ ∀ rest', quotedPieces (u ++ rest') = some (pieces, rest') := by
  induction pieces generalizing cs with
  | nil =>
    rcases quotedPieces_cases h with ⟨-, rfl⟩ | ⟨p, piece, rest', more, -, hmore, -, -⟩
    · exact ⟨['"'], rfl, fun rest' => rfl⟩
    · cases hmore
  | cons piece pieces ih =>
    rcases quotedPieces_cases h with ⟨hnil, -⟩ | ⟨p, piece', rest', more, rfl, hmore, hp, hrest⟩
    · cases hnil
    · cases hmore
      obtain ⟨u, rfl, hu⟩ := ih hrest
      refine ⟨p ++ u, by rw [List.append_assoc], fun rest' => ?_⟩
      rw [List.append_assoc, hp, hu]
      rfl

lemma quotedText_local {cs rest : List Char} {s : Option String}
    (h : quotedText cs = some (s, rest)) :
    ∃ u, cs = u ++ rest ∧ ∀ rest', quotedText (u ++ rest') = some (s, rest') := by
  obtain ⟨⟨pieces, left⟩, hpieces, hp⟩ := Option.map_eq_some_iff.1 h
  cases hp
  obtain ⟨u, hcs, hu⟩ := quotedPieces_local hpieces
  refine ⟨u, hcs, fun rest' => ?_⟩
  rw [quotedText, hu]
  rfl

lemma skipBlank_append_blanks {b : List Char} (hb : ∀ c ∈ b, isBlank c = true) (cs : List Char) :
    skipBlank (b ++ cs) = skipBlank cs := List.dropWhile_append_of_pos hb

lemma exists_blanks (cs : List Char) : ∃ b, (∀ c ∈ b, isBlank c = true) ∧ cs = b ++ skipBlank cs :=
  ⟨cs.takeWhile isBlank, fun _ hc => List.mem_takeWhile_imp hc,
    List.takeWhile_append_dropWhile.symm⟩

lemma skipBlank_skipBlank (cs : List Char) : skipBlank (skipBlank cs) = skipBlank cs := by
  obtain ⟨b, hb, hcs⟩ := exists_blanks cs
  conv_rhs => rw [hcs, skipBlank_append_blanks hb]

lemma isBlank_of_skipBlank {cs rest : List Char} {c : Char} (h : skipBlank cs = c :: rest) :
    isBlank c = false := by
  have hhead := List.head?_dropWhile_not isBlank cs
  rw [skipBlank] at h
  rw [h] at hhead
  exact hhead

lemma skipBlank_local {cs rest : List Char} {c : Char} (h : skipBlank cs = c :: rest) :
    ∃ b, (∀ d ∈ b, isBlank d = true) ∧ cs = b ++ c :: rest ∧
      ∀ rest', skipBlank (b ++ c :: rest') = c :: rest' := by
  obtain ⟨b, hb, hcs⟩ := exists_blanks cs
  have hc := isBlank_of_skipBlank h
  rw [h] at hcs
  exact ⟨b, hb, hcs, fun rest' => by rw [skipBlank_append_blanks hb, skipBlank_cons hc]⟩

lemma key?_local {cs rest : List Char} {key : Option String} (h : key? cs = some (key, rest)) :
    ∃ u, u ≠ [] ∧ cs = u ++ rest ∧ ∀ rest', key? (u ++ rest') = some (key, rest') := by
  unfold key? at h
  split at h
  · rename_i left hleft
    obtain ⟨b, -, rfl, hb⟩ := skipBlank_local hleft
    obtain ⟨u, rfl, hu⟩ := quotedText_local h
    refine ⟨b ++ '"' :: u, by simp, by simp, fun rest' => ?_⟩
    rw [List.append_assoc, List.cons_append, key?, hb]
    exact hu rest'
  · cases h

lemma colon?_local {cs rest : List Char} (h : colon? cs = some rest) :
    ∃ u, cs = u ++ rest ∧ ∀ rest', colon? (u ++ rest') = some rest' := by
  unfold colon? at h
  split at h
  · rename_i left hleft
    cases h
    obtain ⟨b, -, rfl, hb⟩ := skipBlank_local hleft
    refine ⟨b ++ [':'], by simp, fun rest' => ?_⟩
    rw [List.append_assoc, List.singleton_append, colon?, hb]
    rfl
  · cases h

lemma key?_skipBlank (cs : List Char) : key? (skipBlank cs) = key? cs := by
  rw [key?, skipBlank_skipBlank, key?]

end SignedNames.Json.Scan
