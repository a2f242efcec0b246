import Mathlib
import SignedNames.Bytes.Base58
import SignedNames.Proofs.Text.Utf8

/-!
# Base 58 read back

A byte string is read back from its base-58 text, leading zero bytes included, and a text that is
read is the one that its bytes are written as.
-/
namespace SignedNames.Base58

lemma lastDigits_eq {base : Nat} (hb : 2 ≤ base) {count n : Nat} (hn : n < 2 ^ count) :
    lastDigits base count n = (Nat.digits base n).reverse := by
  induction count generalizing n with
  | zero =>
    obtain rfl : n = 0 := by simpa using hn
    simp [lastDigits]
  | succ count ih =>
    by_cases h0 : n = 0
    · simp [lastDigits, h0]
    · have hdiv : n / base < 2 ^ count := by
        rw [Nat.div_lt_iff_lt_mul (by omega)]
        calc
          n < 2 ^ count * 2 := by rwa [← pow_succ]
          _ ≤ 2 ^ count * base := Nat.mul_le_mul_left _ hb
      have hdigits := @Nat.digits_def' base (by omega) n (Nat.pos_of_ne_zero h0)
      rw [lastDigits, if_neg h0, ih hdiv, hdigits, List.reverse_cons]

theorem radixDigits_eq {base : Nat} (hb : 2 ≤ base) (n : Nat) :
    radixDigits base n = (Nat.digits base n).reverse :=
  lastDigits_eq hb Nat.lt_log2_self

theorem radixValue_eq (base : Nat) (ds : List Nat) :
    radixValue base ds = Nat.ofDigits base ds.reverse := by
  rw [Nat.ofDigits_eq_foldr, List.foldr_reverse, radixValue]
  congr 1
  funext n d
  simp only [Nat.cast_id]
  ring

@[simp] theorem radixValue_radixDigits {base : Nat} (hb : 2 ≤ base) (n : Nat) :
    radixValue base (radixDigits base n) = n := by
  rw [radixValue_eq, radixDigits_eq hb, List.reverse_reverse, Nat.ofDigits_digits]

theorem radixDigits_radixValue {base : Nat} (hb : 2 ≤ base) {ds : List Nat}
    (hlt : ∀ d ∈ ds, d < base) (hhead : ds.head? ≠ some 0) :
    radixDigits base (radixValue base ds) = ds := by
  have hlast : ∀ h : ds.reverse ≠ [], ds.reverse.getLast h ≠ 0 := by
    intro h hz
    rw [List.getLast_reverse] at hz
    exact hhead (by rw [← hz, List.head?_eq_some_head])
  rw [radixDigits_eq hb, radixValue_eq,
    Nat.digits_ofDigits base (by omega) _ (by simpa using hlt) hlast, List.reverse_reverse]

lemma radixDigits_lt {base : Nat} (hb : 2 ≤ base) {n d : Nat} (h : d ∈ radixDigits base n) :
    d < base := by
  rw [radixDigits_eq hb, List.mem_reverse] at h
  exact Nat.digits_lt_base (by omega) h

lemma head?_radixDigits {b : Nat} (hb : 2 ≤ b) (n : Nat) :
    (radixDigits b n).head? ≠ some 0 := by
  rw [radixDigits_eq hb, List.head?_reverse]
  by_cases h0 : n = 0
  · simp [h0]
  · rw [List.getLast?_eq_some_getLast (Nat.digits_ne_nil_iff_ne_zero.2 h0)]
    simpa using Nat.getLast_digit_ne_zero b h0

lemma exists_radixDigits_append {base : Nat} (hb : 2 ≤ base) {high low count : Nat}
    (hhigh : 0 < high) (hlow : low < base ^ count) : ∃ rest, rest.length = count ∧
      radixDigits base (high * base ^ count + low) = radixDigits base high ++ rest := by
  have hlength : (Nat.digits base low).length ≤ count :=
    (Nat.digits_length_le_iff (by omega) _).2 hlow
  have hdigits := Nat.digits_append_zeroes_append_digits (n := low)
    (k := count - (Nat.digits base low).length) (show 1 < base by omega) hhigh
  rw [Nat.add_sub_cancel' hlength, Nat.add_comm, Nat.mul_comm] at hdigits
  refine ⟨(Nat.digits base low ++
    List.replicate (count - (Nat.digits base low).length) 0).reverse, ?_, ?_⟩
  · simp only [List.length_reverse, List.length_append, List.length_replicate]
    omega
  · rw [radixDigits_eq hb, radixDigits_eq hb, ← List.reverse_append, hdigits]

lemma radixValue_zeros (base : Nat) {α : Type} (zeros : List α) (ds : List Nat) :
    radixValue base (zeros.map (fun _ => 0) ++ ds) = radixValue base ds := by
  induction zeros with
  | nil => rfl
  | cons z zeros ih => simpa [radixValue] using ih

/-- Digits to one base as digits to another one, with as many leading zeros. -/
def rebase (base base' : Nat) (ds : List Nat) : List Nat :=
  (ds.takeWhile (· == 0)).map (fun _ => 0) ++ radixDigits base' (radixValue base ds)

lemma rebase_lt {base base' : Nat} (hb' : 2 ≤ base') {ds : List Nat} :
    ∀ d ∈ rebase base base' ds, d < base' := by
  intro d hd
  rcases List.mem_append.1 hd with hd | hd
  · obtain ⟨_, _, rfl⟩ := List.mem_map.1 hd
    omega
  · exact radixDigits_lt hb' hd

/-- No digits are lost on the way to another base and back. -/
theorem rebase_rebase {base base' : Nat} (hb : 2 ≤ base) (hb' : 2 ≤ base') {ds : List Nat}
    (hlt : ∀ d ∈ ds, d < base) : rebase base' base (rebase base base' ds) = ds := by
  have hzeros : (ds.takeWhile (· == 0)).map (fun _ => 0) = ds.takeWhile (· == 0) := by
    conv_rhs => rw [← List.map_id (ds.takeWhile (· == 0))]
    refine List.map_congr_left fun d hd => ?_
    have hd0 : (d == 0) = true := List.mem_takeWhile_imp (p := (· == 0)) hd
    exact (eq_of_beq hd0).symm
  have hsame : (rebase base base' ds).takeWhile (· == 0) = ds.takeWhile (· == 0) := by
    have hnone : (radixDigits base' (radixValue base ds)).takeWhile (· == 0) = [] := by
      have hhead := head?_radixDigits hb' (radixValue base ds)
      cases hrest : radixDigits base' (radixValue base ds) with
      | nil => rfl
      | cons d rest => simp_all
    rw [rebase, List.takeWhile_append_of_pos (by simp), hnone, List.append_nil, hzeros]
  have hvalue : radixValue base' (rebase base base' ds) = radixValue base ds := by
    rw [rebase, radixValue_zeros, radixValue_radixDigits hb']
  have hrest : radixDigits base (radixValue base ds) = ds.dropWhile (· == 0) := by
    have hhead : (ds.dropWhile (· == 0)).head? ≠ some 0 := by
      intro h
      have hdrop := List.head?_dropWhile_not (· == 0) ds
      simp [h] at hdrop
    conv_lhs => rw [← List.takeWhile_append_dropWhile (p := (· == 0)) (l := ds), ← hzeros,
      radixValue_zeros]
    exact radixDigits_radixValue hb (fun d hd => hlt d ((List.dropWhile_sublist _).subset hd)) hhead
  rw [rebase, hsame, hvalue, hrest, hzeros, List.takeWhile_append_dropWhile]

lemma ascii_digit : ∀ d < 58, Text.Ascii (digit d) := by
  unfold Text.Ascii
  decide

lemma digitValue?_digit_byte : ∀ d < 58, digitValue? (digit d).toUInt8 = some d := by
  decide

lemma digitValues_digits {ds : List Nat} (h : ∀ d ∈ ds, d < 58) (position : Nat) :
    digitValues position (ds.map fun d => (digit d).toUInt8) = .ok ds := by
  induction ds generalizing position with
  | nil => rfl
  | cons d ds ih =>
    have hd := digitValue?_digit_byte d (h d (by simp))
    simp only [List.map_cons, digitValues, hd, ih (fun e he => h e (by simp [he]))]
    rfl

def digitsOf (bs : Bytes) : List Nat :=
  (bs.takeWhile (· == 0)).map (fun _ => 0) ++ radixDigits 58 (BigEndian.value bs)

lemma digitsOf_eq (bs : Bytes) : digitsOf bs = rebase 256 58 (bs.map UInt8.toNat) := by
  have hvalue : BigEndian.value bs = radixValue 256 (bs.map UInt8.toNat) := by
    rw [BigEndian.value, radixValue, List.foldl_map]
  have hzero : ((· == 0) ∘ UInt8.toNat) = fun b : UInt8 => b == 0 := by
    funext b
    rw [Function.comp_apply, Bool.eq_iff_iff, beq_iff_eq, beq_iff_eq, ← UInt8.toNat_inj]
    rfl
  rw [digitsOf, rebase, hvalue, List.takeWhile_map, hzero, List.map_map]
  rfl

lemma digitsOf_lt {bs : Bytes} : ∀ d ∈ digitsOf bs, d < 58 := by
  rw [digitsOf_eq]
  exact rebase_lt (by decide)

lemma encode_eq (bs : Bytes) : encode bs = String.ofList ((digitsOf bs).map digit) := by
  simp only [encode, digitsOf, List.map_append, List.map_map]
  rfl

lemma utf8_encode (bs : Bytes) :
    Text.utf8 (encode bs) = (digitsOf bs).map fun d => (digit d).toUInt8 := by
  have hascii : ∀ c ∈ (digitsOf bs).map digit, Text.Ascii c := by
    intro c hc
    obtain ⟨d, hd, rfl⟩ := List.mem_map.1 hc
    exact ascii_digit d (digitsOf_lt d hd)
  rw [encode_eq, Text.utf8_ofList_ascii hascii, List.map_map]
  rfl

lemma decode_eq (text : Bytes) :
    decode text = (digitValues 0 text).map fun ds => (rebase 58 256 ds).map UInt8.ofNat := by
  rw [decode]
  congr 1
  funext ds
  rw [rebase, List.map_append, List.map_map]
  rfl

theorem decode_encode (bs : Bytes) : decode (Text.utf8 (encode bs)) = .ok bs := by
  have hbytes : ∀ d ∈ bs.map UInt8.toNat, d < 256 := by
    intro d hd
    obtain ⟨b, _, rfl⟩ := List.mem_map.1 hd
    exact b.toNat_lt
  rw [decode_eq, utf8_encode, digitValues_digits digitsOf_lt, Except.map, digitsOf_eq,
    rebase_rebase (by decide) (by decide) hbytes, List.map_map]
  congr 1
  conv_rhs => rw [← List.map_id bs]
  exact List.map_congr_left fun b _ => UInt8.ofNat_toNat

lemma digit_of_digitValue? {b : UInt8} {d : Nat} (h : digitValue? b = some d) :
    d < 58 ∧ (digit d).toUInt8 = b := by
  obtain ⟨hlt, heq, -⟩ := List.findIdx?_eq_some_iff_getElem.1 h
  have hbyte : (digit d).toNat = b.toNat := by
    rw [digit, List.getD_eq_getElem _ _ hlt]
    exact of_decide_eq_true heq
  refine ⟨hlt, UInt8.toNat_inj.1 ?_⟩
  change (digit d).toNat % 256 = _
  rw [hbyte, Nat.mod_eq_of_lt b.toNat_lt]

lemma bytes_of_digitValues {position : Nat} {text : Bytes} {ds : List Nat}
    (h : digitValues position text = .ok ds) :
    (∀ d ∈ ds, d < 58) ∧ (ds.map fun d => (digit d).toUInt8) = text := by
  induction text generalizing position ds with
  | nil =>
    cases h
    exact ⟨List.forall_mem_nil _, rfl⟩
  | cons b text ih =>
    rw [digitValues] at h
    cases hb : digitValue? b with
    | none =>
      rw [hb] at h
      cases h
    | some d =>
      rw [hb] at h
      cases hrest : digitValues (position + 1) text with
      | error fault =>
        rw [hrest] at h
        cases h
      | ok rest =>
        rw [hrest] at h
        cases h
        obtain ⟨hd, hbyte⟩ := digit_of_digitValue? hb
        obtain ⟨hlt, hbytes⟩ := ih hrest
        refine ⟨List.forall_mem_cons.2 ⟨hd, hlt⟩, ?_⟩
        rw [List.map_cons, hbyte, hbytes]

/-- A text that is read is the one that its bytes are written as. -/
theorem utf8_encode_of_decode {text bs : Bytes} (h : decode text = .ok bs) :
    Text.utf8 (encode bs) = text := by
  rw [decode_eq] at h
  cases hread : digitValues 0 text with
  | error fault =>
    rw [hread] at h
    cases h
  | ok ds =>
    rw [hread] at h
    cases h
    obtain ⟨hlt, rfl⟩ := bytes_of_digitValues hread
    have hbytes : ((rebase 58 256 ds).map UInt8.ofNat).map UInt8.toNat = rebase 58 256 ds := by
      rw [List.map_map]
      conv_rhs => rw [← List.map_id (rebase 58 256 ds)]
      exact List.map_congr_left fun d hd =>
        UInt8.toNat_ofNat_of_lt (rebase_lt (by decide) d hd)
    rw [utf8_encode, digitsOf_eq, hbytes, rebase_rebase (by decide) (by decide) hlt]

end SignedNames.Base58
