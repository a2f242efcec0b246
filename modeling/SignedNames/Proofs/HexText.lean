import Mathlib
import SignedNames.Bytes.Hex
import SignedNames.Proofs.Text.LowerCase
import SignedNames.Proofs.Text.Utf8

/-!
# Hexadecimal texts read back

Digits in either letter case are read as the bytes that they stand for, behind a mark in either
letter case or without one. Main statements: `decode_of_spells`, `decode_of_spellsMarked`.
-/
namespace SignedNames.Hex

/-- The digits stand for the bytes, each in either letter case. -/
def Spells (s : String) (bs : Bytes) : Prop := s.toList.map Char.toLower = (encode bs).toList

instance (s : String) (bs : Bytes) : Decidable (Spells s bs) := inferInstanceAs (Decidable (_ = _))

/-- A mark, which may be left out, and then the digits. -/
def SpellsMarked (s : String) (bs : Bytes) : Prop :=
  ∃ mark ∈ ["0x", "0X", ""], ∃ digits, Spells digits bs ∧ s = mark ++ digits

lemma ascii_digit : ∀ n < 16, Text.Ascii (digit n) := by
  unfold Text.Ascii
  decide

lemma ascii_of_toLower {c : Char} {n : Nat} (hn : n < 16) (h : c.toLower = digit n) :
    Text.Ascii c := by
  cases hupper : c.isUpper with
  | true =>
    simp only [Char.isUpper, decide_eq_true_eq] at hupper
    exact Nat.lt_of_le_of_lt (UInt32.le_iff_toNat_le.1 hupper.2) (by decide)
  | false =>
    rw [Char.toLower_eq_of_not_isUpper (by simp [hupper])] at h
    exact h ▸ ascii_digit n hn

lemma digitValue?_of_toLower {c : Char} {n : Nat} (hn : n < 16) (h : c.toLower = digit n) :
    digitValue? c.toUInt8 = some n := by
  have hcodes : ∀ k < 128, ∀ n < 16, (Char.ofNat k).toLower = digit n →
      digitValue? (Char.ofNat k).toUInt8 = some n := by decide +kernel
  have hcode := hcodes c.toNat (ascii_of_toLower hn h) n hn
  rw [Char.ofNat_toNat] at hcode
  exact hcode h

lemma toLower_digit : ∀ n < 16, (digit n).toLower = digit n := by decide

lemma settled_digit : ∀ n < 16, Text.Settled (digit n) := by
  have hcodes : ∀ n < 16, Text.lowerCode (digit n).toNat = (digit n).toNat ∧
      (digit n).toNat < Text.capitalDottedI.toNat ∧ (digit n).toNat < Text.capitalSigma.toNat := by
    decide +kernel
  intro n hn
  obtain ⟨hstays, hdotted, hsigma⟩ := hcodes n hn
  exact ⟨(digit n).valid, hstays, hdotted.ne, hsigma.ne⟩

lemma toList_encode (bs : Bytes) : (encode bs).toList = bs.flatMap pair := String.toList_ofList

lemma forall_mem_encode {P : Char → Prop} (h : ∀ n < 16, P (digit n)) (bs : Bytes) :
    ∀ c ∈ (encode bs).toList, P c := by
  intro c hc
  rw [toList_encode] at hc
  obtain ⟨b, -, hb⟩ := List.mem_flatMap.1 hc
  have hlt := b.toNat_lt
  rcases List.mem_pair.1 hb with rfl | rfl
  · exact h _ (by omega)
  · exact h _ (by omega)

lemma settled_encode (bs : Bytes) : ∀ c ∈ (encode bs).toList, Text.Settled c :=
  forall_mem_encode settled_digit bs

lemma spells_encode (bs : Bytes) : Spells (encode bs) bs := by
  have hlower := forall_mem_encode (P := fun c => c.toLower = c) toLower_digit bs
  rw [Spells, List.map_congr_left hlower, List.map_id']

lemma spells_nil {s : String} (h : Spells s []) : s.toList = [] := List.map_eq_nil_iff.1 h

lemma spells_cons {s : String} {b : UInt8} {bs : Bytes} (h : Spells s (b :: bs)) :
    ∃ high low rest, s.toList = high :: low :: rest ∧ high.toLower = digit (b.toNat / 16) ∧
      low.toLower = digit (b.toNat % 16) ∧ Spells (String.ofList rest) bs := by
  rw [Spells, toList_encode, List.flatMap_cons, pair] at h
  obtain ⟨high, _, hs, hhigh, h⟩ := List.map_eq_cons_iff.1 h
  obtain ⟨low, rest, rfl, hlow, h⟩ := List.map_eq_cons_iff.1 h
  refine ⟨high, low, rest, hs, hhigh, hlow, ?_⟩
  rw [Spells, toList_encode, String.toList_ofList]
  exact h

lemma Spells.ascii {s : String} {bs : Bytes} (h : Spells s bs) : ∀ c ∈ s.toList, Text.Ascii c := by
  intro c hc
  have hmem : c.toLower ∈ (encode bs).toList := h ▸ List.mem_map_of_mem hc
  have hdigit := forall_mem_encode (P := fun c => ∃ n < 16, c = digit n)
    (fun n hn => ⟨n, hn, rfl⟩) bs _ hmem
  obtain ⟨n, hn, hc⟩ := hdigit
  exact ascii_of_toLower hn hc

lemma Spells.utf8 {s : String} {bs : Bytes} (h : Spells s bs) :
    Text.utf8 s = s.toList.map Char.toUInt8 := by
  have hutf8 := Text.utf8_ofList_ascii h.ascii
  rw [String.ofList_toList] at hutf8
  exact hutf8

lemma Spells.decodePairs {s : String} {bs : Bytes} (h : Spells s bs) (position : Nat) :
    Hex.decodePairs position (s.toList.map Char.toUInt8) = .ok bs := by
  induction bs generalizing s position with
  | nil =>
    rw [spells_nil h]
    rfl
  | cons b bs ih =>
    obtain ⟨high, low, rest, hs, hhigh, hlow, hrest⟩ := spells_cons h
    have hlt := b.toNat_lt
    have hbyte : UInt8.ofNat (b.toNat / 16 * 16 + b.toNat % 16) = b := by
      rw [Nat.div_add_mod', UInt8.ofNat_toNat]
    have hrest := ih hrest (position + 2)
    rw [String.toList_ofList] at hrest
    rw [hs, List.map_cons, List.map_cons, Hex.decodePairs, digitValue?_of_toLower (by omega) hhigh,
      digitValue?_of_toLower (by omega) hlow]
    simp only [hrest, hbyte]
    rfl

lemma Spells.even {s : String} {bs : Bytes} (h : Spells s bs) : s.toList.length % 2 = 0 := by
  have hlength := congrArg List.length h
  rw [List.length_map, toList_encode, List.length_flatMap] at hlength
  rw [hlength]
  simp [pair]

theorem decode_of_spells {s : String} {bs : Bytes} (h : Spells s bs) :
    decode (Text.utf8 s) = .ok bs := by
  have heven := h.even
  rw [decode, h.utf8, List.length_map, if_neg (by omega), h.decodePairs]

theorem decode_encode (bs : Bytes) : decode (Text.utf8 (encode bs)) = .ok bs :=
  decode_of_spells (spells_encode bs)

lemma Spells.stripMark {s : String} {bs : Bytes} (h : Spells s bs) :
    Hex.stripMark (Text.utf8 s) = Text.utf8 s := by
  rw [h.utf8]
  cases bs with
  | nil =>
    rw [spells_nil h]
    rfl
  | cons b bs =>
    obtain ⟨high, low, rest, hs, -, hlow, -⟩ := spells_cons h
    have hdigit := digitValue?_of_toLower (by omega) hlow
    rw [hs, List.map_cons, List.map_cons, Hex.stripMark.eq_def]
    split
    · rename_i heq
      simp only [List.cons.injEq] at heq
      rw [heq.2.1] at hdigit
      cases hdigit
    · rename_i heq
      simp only [List.cons.injEq] at heq
      rw [heq.2.1] at hdigit
      cases hdigit
    · rfl

theorem decode_of_spellsMarked {s : String} {bs : Bytes} (h : SpellsMarked s bs) :
    decode (stripMark (Text.utf8 s)) = .ok bs := by
  obtain ⟨mark, hmark, digits, hdigits, rfl⟩ := h
  have hread := decode_of_spells hdigits
  rw [Text.utf8_append]
  simp only [List.mem_cons, List.not_mem_nil, or_false] at hmark
  rcases hmark with rfl | rfl | rfl
  · exact hread
  · exact hread
  · exact (congrArg decode hdigits.stripMark).trans hread

lemma Spells.spellsMarked {s : String} {bs : Bytes} (h : Spells s bs) : SpellsMarked s bs :=
  ⟨"", by simp, s, h, String.empty_append.symm⟩

lemma spellsMarked_encode (bs : Bytes) : SpellsMarked ("0x" ++ encode bs) bs :=
  ⟨"0x", by simp, encode bs, spells_encode bs, rfl⟩

lemma decode_stripMark (bs : Bytes) :
    decode (stripMark (Text.utf8 ("0x" ++ encode bs))) = .ok bs :=
  decode_of_spellsMarked (spellsMarked_encode bs)

end SignedNames.Hex
