import Mathlib
import SignedNames.Bytes.Basic

/-!
# Texts and their bytes

A text is read back from its UTF-8 bytes, and a text of ASCII characters has one byte for each.
-/
namespace SignedNames.Text

@[simp] theorem ofUtf8?_utf8 (s : String) : ofUtf8? (utf8 s) = some s := by
  have hv : s.toByteArray.IsValidUTF8 := s.isValidUTF8
  have hb : (⟨(utf8 s).toArray⟩ : ByteArray) = s.toByteArray := by simp [utf8]
  unfold ofUtf8? String.fromUTF8?
  rw [hb, dif_pos hv]
  rfl

lemma utf8_of_ofUtf8? {bs : Bytes} {s : String} (h : ofUtf8? bs = some s) : utf8 s = bs := by
  unfold ofUtf8? String.fromUTF8? at h
  split_ifs at h
  cases h
  rfl

lemma utf8_append (s t : String) : utf8 (s ++ t) = utf8 s ++ utf8 t := by
  simp [utf8]

lemma utf8_ofList (cs : List Char) :
    utf8 (String.ofList cs) = cs.flatMap String.utf8EncodeChar := by
  simp [utf8, List.utf8Encode]

def Ascii (c : Char) : Prop := c.toNat < 128

lemma utf8EncodeChar_ascii {c : Char} (h : Ascii c) : String.utf8EncodeChar c = [c.toUInt8] := by
  apply String.utf8EncodeChar_eq_singleton
  rw [Char.utf8Size_eq_one_iff, UInt32.le_iff_toNat_le]
  exact Nat.le_of_lt_succ h

lemma utf8_ofList_ascii {cs : List Char} (h : ∀ c ∈ cs, Ascii c) :
    utf8 (String.ofList cs) = cs.map Char.toUInt8 := by
  have hbytes : cs.flatMap String.utf8EncodeChar = cs.flatMap fun c => [c.toUInt8] :=
    List.flatMap_congr fun c hc => utf8EncodeChar_ascii (h c hc)
  rw [utf8_ofList, hbytes, List.map_eq_flatMap]

end SignedNames.Text
