import Mathlib
import SignedNames.Json.Scan

/-!
# Whole numbers read back

The digits of a whole number of 64 bits are scanned as that number, whatever follows it in a
document.
-/
namespace SignedNames.Json.Scan

/-- What may follow a value in a document: its end, a comma or a closing bracket. -/
def Delimits : List Char → Prop
  | [] => True
  | c :: _ => c = ',' ∨ c = ']' ∨ c = '}'

lemma isDigit_of_mem_toDigits {n : Nat} {c : Char} (h : c ∈ Nat.toDigits 10 n) :
    isDigit c = true := by
  have hdigit : c.isDigit = true := Nat.isDigit_of_mem_toDigits (by omega) (by omega) h
  simpa [isDigit, Char.isDigit, Char.le_def, UInt32.le_iff_toNat_le] using hdigit

lemma head?_toDigits {n : Nat} (h : 0 < n) :
    ∃ c cs, Nat.toDigits 10 n = c :: cs ∧ c.toNat - 48 ≠ 0 := by
  induction n using Nat.strongRecOn with
  | _ n ih =>
    by_cases hn : n < 10
    · refine ⟨Nat.digitChar n, [], Nat.toDigits_of_lt_base hn, ?_⟩
      interval_cases n <;> decide
    · obtain ⟨c, cs, hcs, hc⟩ := ih (n / 10) (by omega) (by omega)
      refine ⟨c, cs ++ [Nat.digitChar (n % 10)], ?_, hc⟩
      rw [Nat.toDigits_of_base_le (by omega) (by omega), hcs]
      rfl

lemma ne_of_isDigit {c d : Char} (hc : isDigit c = true) (hd : isDigit d = false) : c ≠ d := by
  rintro rfl
  rw [hc] at hd
  cases hd

lemma isBlank_of_isDigit {c : Char} (h : isDigit c = true) : isBlank c = false := by
  have hne (d : Char) (hd : isDigit d = false) : c ≠ d := ne_of_isDigit h hd
  simp [isBlank, hne ' ' (by decide), hne '\n' (by decide), hne '\t' (by decide),
    hne '\r' (by decide)]

lemma dropWhile_isDigit {rest : List Char} (h : Delimits rest) : rest.dropWhile isDigit = rest := by
  cases rest with
  | nil => rfl
  | cons c rest =>
    rcases h with rfl | rfl | rfl <;> rfl

lemma takeWhile_isDigit {rest : List Char} (h : Delimits rest) : rest.takeWhile isDigit = [] := by
  cases rest with
  | nil => rfl
  | cons c rest =>
    rcases h with rfl | rfl | rfl <;> rfl

def digitValues (n : Nat) : List Nat := (Nat.toDigits 10 n).map fun c => c.toNat - 48

lemma digits_toDigits (n : Nat) {rest : List Char} (h : Delimits rest) :
    digits (Nat.toDigits 10 n ++ rest) = (digitValues n, rest) := by
  have hdigits : ∀ c ∈ Nat.toDigits 10 n, isDigit c = true := fun _ => isDigit_of_mem_toDigits
  rw [digits, List.takeWhile_append_of_pos hdigits, List.dropWhile_append_of_pos hdigits,
    takeWhile_isDigit h, dropWhile_isDigit h, List.append_nil]
  rfl

lemma digitValues_ne_nil (n : Nat) : digitValues n ≠ [] := by
  rw [digitValues, ne_eq, List.map_eq_nil_iff]
  exact Nat.toDigits_ne_nil

lemma foldl_digitValues (n : Nat) :
    (digitValues n).foldl (fun m d => m * 10 + d) 0 = n := by
  have hfold : Nat.ofDigitChars 10 (Nat.toDigits 10 n) 0 = n := Nat.ofDigitChars_ten_toDigits
  rw [digitValues, List.foldl_map]
  simpa [Nat.ofDigitChars, Nat.mul_comm] using hfold

lemma digitValues_leading_zero {n : Nat} (h : (digitValues n).head? = some 0) :
    digitValues n = [0] := by
  rcases Nat.eq_zero_or_pos n with rfl | hn
  · rfl
  · obtain ⟨c, cs, hcs, hc⟩ := head?_toDigits hn
    rw [digitValues, hcs] at h
    exact absurd (Option.some.inj h) hc

lemma le_foldl_digits (n : Nat) (ds : List Nat) : n ≤ ds.foldl (fun m d => m * 10 + d) n := by
  induction ds generalizing n with
  | nil => exact Nat.le_refl n
  | cons d ds ih =>
    have hle := ih (n * 10 + d)
    rw [List.foldl_cons]
    omega

lemma appendDigits_eq {n : Nat} {ds : List Nat}
    (h : ds.foldl (fun m d => m * 10 + d) n < UInt64.size) :
    appendDigits n ds = (ds.foldl (fun m d => m * 10 + d) n, []) := by
  induction ds generalizing n with
  | nil => rfl
  | cons d ds ih =>
    have hle := le_foldl_digits (n * 10 + d) ds
    rw [List.foldl_cons] at h
    rw [appendDigits, if_pos (by omega), ih h, List.foldl_cons]

lemma appendDigits_digitValues {n : Nat} (h : n < UInt64.size) :
    appendDigits 0 (digitValues n) = (n, []) := by
  have hfold := foldl_digitValues n
  rw [appendDigits_eq (by rw [hfold]; exact h), hfold]

lemma fraction?_delimited {rest : List Char} (h : Delimits rest) :
    fraction? rest = some (none, rest) := by
  cases rest with
  | nil => rfl
  | cons c rest =>
    rcases h with rfl | rfl | rfl <;> rfl

lemma exponent?_delimited {rest : List Char} (h : Delimits rest) :
    exponent? rest = some (none, rest) := by
  cases rest with
  | nil => rfl
  | cons c rest =>
    rcases h with rfl | rfl | rfl <;> rfl

lemma unsigned_toDigits (negative : Bool) (n : Nat) {rest : List Char} (h : Delimits rest) :
    unsigned negative (Nat.toDigits 10 n ++ rest) =
      some (number? negative (digitValues n) none none, rest) := by
  have hzero : ¬ ((digitValues n).head? = some 0 ∧ digitValues n ≠ [0]) := fun hzero =>
    hzero.2 (digitValues_leading_zero hzero.1)
  rw [unsigned, digits_toDigits n h]
  cases hvalues : digitValues n with
  | nil => exact absurd hvalues (digitValues_ne_nil n)
  | cons d ds =>
    rw [hvalues] at hzero
    simp only [if_neg hzero, fraction?_delimited h, exponent?_delimited h]
    rfl

lemma number?_natural (n : UInt64) :
    number? false (digitValues n.toNat) none none = some (.natural n) := by
  have hvalue := appendDigits_digitValues n.toNat_lt
  simp [number?, hvalue]

/-- A negative number of 64 bits with a sign, given by its magnitude. -/
def Negative (magnitude : UInt64) : Prop :=
  0 < magnitude.toNat ∧ magnitude.toNat ≤ 0x8000000000000000

lemma number?_negative {magnitude : UInt64} (h : Negative magnitude) :
    number? true (digitValues magnitude.toNat) none none = some (.negative magnitude) := by
  have hvalue := appendDigits_digitValues magnitude.toNat_lt
  have hrange : 0 < magnitude.toNat ∧ magnitude.toNat ≤ 0x8000000000000000 := h
  simp [number?, hvalue, hrange]

lemma scalar?_of_isDigit {c : Char} (h : isDigit c = true) (cs : List Char) :
    scalar? (c :: cs) =
      (unsigned false (c :: cs)).map fun p => (meaning (p.1.map .number), p.2) := by
  rw [scalar?.eq_def]
  split
  all_goals first
    | rfl
    | rename_i heq
      cases heq
      exact absurd h (by decide)

lemma toList_toString (n : Nat) : (toString n).toList = Nat.toDigits 10 n := by
  rw [Nat.toString_eq_ofList_toDigits, String.toList_ofList]

end SignedNames.Json.Scan
