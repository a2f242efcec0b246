import Mathlib
import SignedNames.Chain.Calldata
import SignedNames.Proofs.Bytes.BigEndian

/-!
# Calls read back

A wallet reads the digest and the signature that it is asked about from the data of the call. The
signature stands behind the word with its length, where its offset points. Data is read exactly when
it has that form, so a call that is cut short is not read at all, and no number is so large that a
place is taken for another one.
-/
namespace SignedNames.Calldata

/-- Data that holds a digest and a signature. The second word is the place of a third one, counted
from after the selector; that one is the length of the signature, which follows it. -/
inductive Holds (digest : Block 32) (signature : Bytes) : Bytes → Prop
  | intro (offset length : Block 32) (rest before after : Bytes)
    (parts : digest.bytes ++ offset.bytes ++ rest = before ++ length.bytes ++ signature ++ after)
    (place : before.length = BigEndian.value offset.bytes)
    (count : signature.length = BigEndian.value length.bytes) :
    Holds digest signature (selector ++ (digest.bytes ++ offset.bytes ++ rest))

theorem number?_eq_some_iff {word : Bytes} {n : UInt64} :
    number? word = some n ↔ word.length = 32 ∧ BigEndian.value word = n.toNat := by
  rw [number?, Option.ite_none_right_eq_some, and_assoc, and_congr_right_iff]
  intro hlength
  have hvalue : BigEndian.value word =
      BigEndian.value (word.take 24) * 2 ^ 64 + BigEndian.value (word.drop 24) := by
    conv_lhs => rw [← List.take_append_drop 24 word]
    rw [BigEndian.value_append, List.length_drop, hlength]
    rfl
  have hlow : BigEndian.value (word.drop 24) < 2 ^ 64 := by
    have hlt := BigEndian.value_lt (word.drop 24)
    rw [List.length_drop, hlength] at hlt
    exact hlt
  have hzeros : (word.take 24).all (· == 0) = true ↔ BigEndian.value (word.take 24) = 0 := by
    simp [BigEndian.value_eq_zero_iff]
  have hn := n.toNat_lt
  rw [hzeros, Option.some.injEq, ← UInt64.toNat_inj, UInt64.toNat_ofNat_of_lt' hlow]
  constructor
  · rintro ⟨hhigh, heq⟩
    rw [hvalue, hhigh, heq, Nat.zero_mul, Nat.zero_add]
  · intro h
    omega

theorem placeAfter?_eq_some_iff {place count stop : UInt64} :
    placeAfter? place count = some stop ↔ stop.toNat = place.toNat + count.toNat := by
  have hstop := stop.toNat_lt
  rw [placeAfter?, Option.ite_none_right_eq_some, Option.some.injEq, ← UInt64.toNat_inj,
    UInt64.toNat_add, UInt64.size]
  omega

theorem between?_eq_some_iff {start stop : UInt64} {bs part : Bytes} :
    between? start stop bs = some part ↔ ∃ before after, bs = before ++ part ++ after ∧
      before.length = start.toNat ∧ stop.toNat = start.toNat + part.length := by
  rw [between?, Option.ite_none_right_eq_some, Option.some.injEq, UInt64.le_iff_toNat_le]
  constructor
  · rintro ⟨⟨hle, hstop⟩, rfl⟩
    refine ⟨bs.take start.toNat, bs.drop stop.toNat, ?_, ?_, ?_⟩
    · have htake : bs.take start.toNat = (bs.take stop.toNat).take start.toNat := by
        rw [List.take_take, min_eq_left hle]
      rw [htake, List.take_append_drop, List.take_append_drop]
    · rw [List.length_take]
      omega
    · rw [List.length_drop, List.length_take]
      omega
  · rintro ⟨before, after, rfl, hbefore, hstop⟩
    have hlength : stop.toNat = (before ++ part).length := by
      rw [List.length_append, hbefore, hstop]
    refine ⟨⟨by omega, ?_⟩, ?_⟩
    · rw [hlength]
      exact List.IsPrefix.length_le (List.prefix_append ..)
    · rw [hlength, List.take_left, ← hbefore, List.drop_left]

lemma arguments?_eq_some_iff {data arguments : Bytes} :
    arguments? data = some arguments ↔ data = selector ++ arguments := by
  constructor
  · intro h
    unfold arguments? at h
    split at h
    · rename_i a b c d rest
      obtain ⟨hselector, hrest⟩ := Option.ite_none_right_eq_some.1 h
      rw [← hselector, ← Option.some.inj hrest]
      rfl
    · cases h
  · rintro rfl
    rfl

lemma decode_eq_some_iff {data : Bytes} {digest : Block 32} {signature : Bytes} :
    decode data = some (digest, signature) ↔ ∃ arguments offset start word length stop,
      data = selector ++ arguments ∧ arguments.take 32 = digest.bytes ∧
        number? ((arguments.drop 32).take 32) = some offset ∧
        placeAfter? offset 32 = some start ∧ between? offset start arguments = some word ∧
        number? word = some length ∧ placeAfter? start length = some stop ∧
        between? start stop arguments = some signature := by
  simp only [decode, Option.bind_eq_bind, Option.bind_eq_some_iff, Option.pure_def,
    Option.some.injEq, Prod.mk.injEq, arguments?_eq_some_iff, Block.ofBytes?_eq_some]
  constructor
  · rintro ⟨arguments, hdata, _, hdigest, offset, hoffset, start, hstart, length,
      ⟨word, hword, hlength⟩, stop, hstop, _, hsignature, rfl, rfl⟩
    exact ⟨arguments, offset, start, word, length, stop, hdata, hdigest, hoffset, hstart, hword,
      hlength, hstop, hsignature⟩
  · rintro ⟨arguments, offset, start, word, length, stop, hdata, hdigest, hoffset, hstart, hword,
      hlength, hstop, hsignature⟩
    exact ⟨arguments, hdata, digest, hdigest, offset, hoffset, start, hstart, length,
      ⟨word, hword, hlength⟩, stop, hstop, signature, hsignature, rfl, rfl⟩

/-- What is read from some data is what the data holds. -/
theorem holds_of_decode {data : Bytes} {digest : Block 32} {signature : Bytes}
    (h : decode data = some (digest, signature)) : Holds digest signature data := by
  obtain ⟨arguments, offset, start, word, length, stop, rfl, hdigest, hoffset, hstart, hword,
    hlength, hstop, hsignature⟩ := decode_eq_some_iff.1 h
  obtain ⟨hoffsetLength, hoffset⟩ := number?_eq_some_iff.1 hoffset
  obtain ⟨hwordLength, hlength⟩ := number?_eq_some_iff.1 hlength
  rw [placeAfter?_eq_some_iff] at hstart hstop
  obtain ⟨before, behind, harguments, hbefore, -⟩ := between?_eq_some_iff.1 hword
  obtain ⟨front, after, hfront, hfrontLength, hsignature⟩ := between?_eq_some_iff.1 hsignature
  have hsplit : arguments =
      digest.bytes ++ (arguments.drop 32).take 32 ++ (arguments.drop 32).drop 32 := by
    rw [← hdigest, List.append_assoc, List.take_append_drop, List.take_append_drop]
  have hword32 : (32 : UInt64).toNat = 32 := rfl
  -- both the word with the length and the signature end where the signature starts
  have hbehind : front = before ++ word := by
    have hlengths : front.length = (before ++ word).length := by
      rw [List.length_append]
      omega
    have happend : front ++ (signature ++ after) = (before ++ word) ++ behind := by
      rw [← List.append_assoc, ← hfront, harguments]
    exact (List.append_inj happend hlengths).1
  have hcount : signature.length = BigEndian.value word := by omega
  rw [hsplit]
  refine .intro ⟨_, hoffsetLength⟩ ⟨word, hwordLength⟩ _ before after ?_ ?_ hcount
  · rw [← hsplit, ← hbehind]
    exact hfront
  · exact hbefore.trans hoffset.symm

/-- What some data holds is read from it, if its length is a number of 64 bits. -/
theorem decode_of_holds {data : Bytes} {digest : Block 32} {signature : Bytes}
    (h : Holds digest signature data) (hdata : data.length < UInt64.size) :
    decode data = some (digest, signature) := by
  obtain ⟨offset, length, rest, before, after, parts, place, count⟩ := h
  have htotal : before.length + 32 + signature.length < UInt64.size := by
    rw [parts] at hdata
    simp only [List.length_append, length.length_eq] at hdata
    omega
  have hsmall (n : Nat) (hn : n ≤ before.length + 32 + signature.length) :
      (UInt64.ofNat n).toNat = n := UInt64.toNat_ofNat_of_lt' (hn.trans_lt htotal)
  have hplace := hsmall before.length (by omega)
  have hstart := hsmall (before.length + 32) (by omega)
  have hcount := hsmall signature.length (by omega)
  have hstop := hsmall (before.length + 32 + signature.length) le_rfl
  have hword32 : (32 : UInt64).toNat = 32 := rfl
  refine decode_eq_some_iff.2 ⟨_, .ofNat before.length, .ofNat (before.length + 32), length.bytes,
    .ofNat signature.length, .ofNat (before.length + 32 + signature.length), rfl, ?_, ?_, ?_, ?_,
    ?_, ?_, ?_⟩
  · rw [List.append_assoc, List.take_left' digest.length_eq]
  · rw [List.append_assoc, List.drop_left' digest.length_eq, List.take_left' offset.length_eq]
    exact number?_eq_some_iff.2 ⟨offset.length_eq, by rw [hplace, place]⟩
  · rw [placeAfter?_eq_some_iff, hplace, hstart, hword32]
  · refine between?_eq_some_iff.2 ⟨before, signature ++ after, ?_, hplace.symm, ?_⟩
    · rw [parts, List.append_assoc]
    · rw [hplace, hstart, length.length_eq]
  · exact number?_eq_some_iff.2 ⟨length.length_eq, by rw [hcount, count]⟩
  · rw [placeAfter?_eq_some_iff, hstart, hcount, hstop]
  · refine between?_eq_some_iff.2 ⟨before ++ length.bytes, after, parts, ?_, ?_⟩
    · rw [List.length_append, length.length_eq, hstart]
    · rw [hstart, hstop]

lemma encode_append (digest : Block 32) (signature rest : Bytes) :
    encode digest signature ++ rest = selector ++ (digest.bytes ++ BigEndian.digits 32 64 ++
      (BigEndian.digits 32 signature.length ++ signature ++
        (filling signature.length ++ rest))) := by
  simp only [encode, List.append_assoc]

lemma length_encode (digest : Block 32) (signature : Bytes) :
    (encode digest signature).length =
      100 + signature.length + (filling signature.length).length := by
  simp only [encode, List.length_append, digest.length_eq, BigEndian.length_digits]
  have hselector : selector.length = 4 := rfl
  omega

lemma value_length_word {signature : Bytes} (h : signature.length < UInt64.size) :
    BigEndian.value (BigEndian.digits 32 signature.length) = signature.length :=
  BigEndian.value_digits_of_lt (h.trans (by decide))

theorem holds_encode (digest : Block 32) {signature : Bytes} (h : signature.length < UInt64.size)
    (rest : Bytes) : Holds digest signature (encode digest signature ++ rest) := by
  rw [encode_append]
  refine .intro (BigEndian.block 32 64) (BigEndian.block 32 signature.length) _
    (digest.bytes ++ BigEndian.digits 32 64) (filling signature.length ++ rest) ?_ ?_ ?_
  · simp only [BigEndian.block, List.append_assoc]
  · rw [List.length_append, digest.length_eq, BigEndian.length_digits]
    exact (BigEndian.value_digits_of_lt (by decide)).symm
  · exact (value_length_word h).symm

theorem decode_append (digest : Block 32) {signature rest : Bytes}
    (h : (encode digest signature ++ rest).length < UInt64.size) :
    decode (encode digest signature ++ rest) = some (digest, signature) := by
  refine decode_of_holds (holds_encode digest ?_ rest) h
  rw [List.length_append, length_encode] at h
  omega

lemma Holds.length_le_of_cut {digest found : Block 32} {signature read data : Bytes}
    (h : Holds found read data) (hsignature : signature.length < UInt64.size)
    (hcut : data <+: encode digest signature) : 100 + signature.length ≤ data.length := by
  obtain ⟨offset, length, rest, before, after, parts, place, count⟩ := h
  obtain ⟨lost, hlost⟩ := hcut
  have hcall := encode_append digest signature []
  rw [List.append_nil] at hcall
  rw [hcall, List.append_assoc, List.append_cancel_left_eq] at hlost
  have hhead : found.bytes ++ offset.bytes = digest.bytes ++ BigEndian.digits 32 64 := by
    refine (List.append_inj ((List.append_assoc ..).symm.trans hlost) ?_).1
    simp only [List.length_append, found.length_eq, offset.length_eq, digest.length_eq,
      BigEndian.length_digits]
  have hoffset : offset.bytes = BigEndian.digits 32 64 :=
    (List.append_inj hhead (found.length_eq.trans digest.length_eq.symm)).2
  have hbefore : before.length = 64 := by
    rw [place, hoffset]
    exact BigEndian.value_digits_of_lt (by decide)
  have htail : before ++ (length.bytes ++ (read ++ (after ++ lost))) =
      (digest.bytes ++ BigEndian.digits 32 64) ++ (BigEndian.digits 32 signature.length ++
        (signature ++ filling signature.length)) := by
    rw [parts] at hlost
    simpa only [List.append_assoc, List.append_nil] using hlost
  have hwords := (List.append_inj htail (by
    rw [hbefore, List.length_append, digest.length_eq, BigEndian.length_digits])).2
  have hlength : length.bytes = BigEndian.digits 32 signature.length :=
    (List.append_inj hwords (length.length_eq.trans (BigEndian.length_digits ..).symm)).1
  rw [hlength, value_length_word hsignature] at count
  have hselector : selector.length = 4 := rfl
  rw [parts]
  simp only [List.length_append, length.length_eq]
  omega

/-- A call that is cut short before the end of its signature is refused. -/
theorem decode_take {digest : Block 32} {signature : Bytes} {n : Nat}
    (h : signature.length < UInt64.size) (hn : n < 100 + signature.length) :
    decode ((encode digest signature).take n) = none := by
  rw [Option.eq_none_iff_forall_ne_some]
  rintro ⟨found, read⟩ hread
  have hlength := (holds_of_decode hread).length_le_of_cut h ⟨_, List.take_append_drop ..⟩
  rw [List.length_take] at hlength
  omega

/-- Every call is read back, whatever follows it, and none that is cut short. Any data that is read
holds what is read, wherever it was placed, and what data holds is read. Places and lengths are
compared as natural numbers, so that no sum of them wraps around. Lengths of byte strings have 64
bits, as they do for all byte strings in memory. -/
theorem decode_what_is_held :
    (∀ (digest : Block 32) (signature rest : Bytes),
      (encode digest signature ++ rest).length < UInt64.size →
        decode (encode digest signature ++ rest) = some (digest, signature)) ∧
    (∀ (digest : Block 32) (signature : Bytes) (n : Nat), signature.length < UInt64.size →
      n < 100 + signature.length → decode ((encode digest signature).take n) = none) ∧
    (∀ (data : Bytes) (digest : Block 32) (signature : Bytes),
      decode data = some (digest, signature) → Holds digest signature data) ∧
    ∀ (data : Bytes) (digest : Block 32) (signature : Bytes), data.length < UInt64.size →
      Holds digest signature data → decode data = some (digest, signature) :=
  ⟨fun digest _ _ h => decode_append digest h, fun _ _ _ h hn => decode_take h hn,
    fun _ _ _ h => holds_of_decode h, fun _ _ _ hdata h => decode_of_holds h hdata⟩

/-- A call with its signature behind a word that means nothing. -/
def movedCall : Bytes :=
  selector ++ List.replicate 32 0xaa ++ BigEndian.digits 32 96 ++ List.replicate 32 0xff ++
    BigEndian.digits 32 3 ++ [1, 2, 3]

/-- A call with an offset that, taken 32 bytes further in 64 bits, is zero. -/
def wrappedCall : Bytes :=
  selector ++ List.replicate 32 0 ++ BigEndian.digits 32 (UInt64.size - 32) ++
    List.replicate 64 0

theorem samples_decoded :
    decode (encode (.replicate 32 0xaa) [] ++ [7]) = some (.replicate 32 0xaa, []) ∧
      decode ((encode (.replicate 32 0xaa) (.replicate 64 1)).take 163) = none ∧
      decode movedCall = some (.replicate 32 0xaa, [1, 2, 3]) ∧
      Holds (.replicate 32 0xaa) [1, 2, 3] movedCall ∧
      wrappedCall.length < UInt64.size ∧ ¬Holds (.replicate 32 0) [] wrappedCall := by
  obtain ⟨hback, hcut, hheld, hread⟩ := decode_what_is_held
  have hmoved : decode movedCall = some (.replicate 32 0xaa, [1, 2, 3]) := by decide +kernel
  have hwrapped : wrappedCall.length < UInt64.size ∧ decode wrappedCall = none := by decide +kernel
  refine ⟨hback _ _ _ (by decide +kernel), hcut _ _ _ (by decide) (by decide), hmoved,
    hheld _ _ _ hmoved, hwrapped.1, fun h => ?_⟩
  have hsome := hread _ _ _ hwrapped.1 h
  rw [hwrapped.2] at hsome
  cases hsome

end SignedNames.Calldata
