import Mathlib
import SignedNames.Proofs.Cbor.ReadBack

/-!
# Deterministic bytes

A strict reader passes over an item only if it is written as RFC 8949 asks for in section 4.2.1:
numbers and lengths in the fewest bytes, no indefinite lengths, the keys of a map in ascending
bytewise order. It passes over neither fractions nor nulls nor tags, and an item has one way at most
to be passed over. The reader passes over whatever a canonical value with different keys encodes to,
and a map encodes to the same bytes in whatever order its entries are given.
-/
namespace SignedNames.Cbor

/-- The kind and the number of a head in the fewest bytes, and what follows. -/
def shortestHead? (bs : Bytes) : Option ((Nat × Nat) × Bytes) :=
  match Head.read bs with
  | some (⟨major, form, some n⟩, rest) =>
    if Head.leastNumber form ≤ n then some ((major, n), rest) else none
  | _ => none

def skipTimes (skip : Bytes → Option Bytes) : Nat → Bytes → Option Bytes
  | 0, bs => some bs
  | n + 1, bs =>
    match skip bs with
    | none => none
    | some rest => skipTimes skip n rest

/-- Passes over the entries of a map, each of which has a key greater than the one before it. -/
def skipEntries (skip : Bytes → Option Bytes) : (last : Bytes) → Nat → Bytes → Option Bytes
  | _, 0, bs => some bs
  | last, n + 1, bs =>
    match skip bs with
    | none => none
    | some afterKey =>
      let key := bs.take (bs.length - afterKey.length)
      if last < key then
        match skip afterKey with
        | none => none
        | some rest => skipEntries skip key n rest
      else none

/-- Passes over an item nested at most `depth` deep. -/
def skipStrict : (depth : Nat) → Bytes → Option Bytes
  | depth, bs =>
    match shortestHead? bs with
    | none => none
    | some ((major, n), rest) =>
      match major with
      | 0 => some rest
      | 1 => some rest
      | 2 => (splitExact n rest).map Prod.snd
      | 3 =>
        match splitExact n rest with
        | none => none
        | some (text, left) => (Text.ofUtf8? text).map fun _ => left
      | 4 =>
        match depth with
        | 0 => none
        | depth + 1 => skipTimes (skipStrict depth) n rest
      | 5 =>
        match depth with
        | 0 => none
        | depth + 1 => skipEntries (skipStrict depth) [] n rest
      | 7 => if n = 20 ∨ n = 21 then some rest else none
      | _ => none

/-- The bytes are one item, and the strict reader passes over it. -/
def Deterministic (bs : Bytes) : Prop := skipStrict nestingLimit bs = some []

instance (bs : Bytes) : Decidable (Deterministic bs) := inferInstanceAs (Decidable (_ = _))

lemma shortestHead?_headBytes {major n : Nat} (hm : major < 8) (hn : n < UInt64.size)
    (rest : Bytes) : shortestHead? (headBytes major n ++ rest) = some ((major, n), rest) := by
  obtain ⟨form, hspelled, hleast⟩ := spelled_headBytes major n
  rw [Nat.mod_eq_of_lt hn] at hspelled
  simp only [shortestHead?, Head.read_of_spelled hspelled hm rest, if_pos hleast]

section Sequences
variable {α : Type} {skip : Bytes → Option Bytes}

lemma skipTimes_flatMap {bytes : α → Bytes} {things : List α}
    (h : ∀ a ∈ things, ∀ rest, skip (bytes a ++ rest) = some rest) (rest : Bytes) :
    skipTimes skip things.length (things.flatMap bytes ++ rest) = some rest := by
  induction things with
  | nil => rfl
  | cons a more ih =>
    rw [List.flatMap_cons, List.append_assoc, List.length_cons, skipTimes, h a (by simp)]
    exact ih fun b hb => h b (by simp [hb])

lemma skipEntries_flatMap {key value : α → Bytes} {things : List α}
    (hkey : ∀ a ∈ things, ∀ rest, skip (key a ++ rest) = some rest)
    (hvalue : ∀ a ∈ things, ∀ rest, skip (value a ++ rest) = some rest) {last : Bytes}
    (ascending : (last :: things.map key).Pairwise (· < ·)) (rest : Bytes) :
    skipEntries skip last things.length ((things.flatMap fun a => key a ++ value a) ++ rest) =
      some rest := by
  induction things generalizing last with
  | nil => rfl
  | cons a more ih =>
    rw [List.map_cons, List.pairwise_cons] at ascending
    have hlast : last < key a := ascending.1 _ (by simp)
    have hmore := ih (fun b hb => hkey b (by simp [hb])) (fun b hb => hvalue b (by simp [hb]))
      ascending.2
    simp [skipEntries, List.append_assoc, hkey a (by simp), hvalue a (by simp), hlast, hmore]

end Sequences

lemma skipStrict_textBytes {depth : Nat} {s : String} (h : (Text.utf8 s).length < UInt64.size)
    (rest : Bytes) : skipStrict depth (textBytes s ++ rest) = some rest := by
  have hhead := shortestHead?_headBytes (show 3 < 8 by decide) h (Text.utf8 s ++ rest)
  rw [textBytes, List.append_assoc, skipStrict.eq_def]
  simp only [hhead, splitExact_append, Text.ofUtf8?_utf8, Option.map_some]

theorem textBytes_injective : Function.Injective textBytes := by
  intro s t h
  have hthree : 3 < 8 := by decide
  obtain ⟨_, hs, -⟩ := spelled_headBytes 3 (Text.utf8 s).length
  obtain ⟨_, ht, -⟩ := spelled_headBytes 3 (Text.utf8 t).length
  have hread := Head.read_of_spelled hs hthree (Text.utf8 s)
  rw [← textBytes, h, textBytes, Head.read_of_spelled ht hthree] at hread
  have hutf8 : Text.utf8 t = Text.utf8 s := (Prod.ext_iff.1 (Option.some.inj hread)).2
  have hsome := Text.ofUtf8?_utf8 t
  rw [hutf8, Text.ofUtf8?_utf8] at hsome
  exact Option.some.inj hsome

lemma nil_lt_entryKey {α : Type} {e : String × α} (h : (Text.utf8 e.1).length < UInt64.size) :
    [] < entryKey e := by
  have hne : entryKey e ≠ [] :=
    List.append_ne_nil_of_left_ne_nil (announces_headBytes 3 h).ne_nil _
  obtain ⟨b, more, heq⟩ := List.exists_cons_of_ne_nil hne
  rw [heq]
  exact List.nil_lt_cons b more

namespace Canonical

inductive DistinctKeys : Canonical → Prop
  | natural (n : UInt64) : DistinctKeys (.natural n)
  | bytes (bs : Bytes) : DistinctKeys (.bytes bs)
  | text (s : String) : DistinctKeys (.text s)
  | bool (b : Bool) : DistinctKeys (.bool b)
  | array {items : List Canonical} (each : ∀ v ∈ items, DistinctKeys v) :
    DistinctKeys (.array items)
  | map {entries : List (String × Canonical)} (distinct : (entries.map Prod.fst).Nodup)
      (values : ∀ e ∈ entries, DistinctKeys e.2) : DistinctKeys (.map entries)

lemma nodup_entryKey {entries : List (String × Canonical)}
    (distinct : (entries.map Prod.fst).Nodup) : (entries.map entryKey).Nodup := by
  have hmap := distinct.map textBytes_injective
  rwa [List.map_map] at hmap

/-- The strict reader passes over the bytes of a value and nothing more. -/
theorem skipStrict_encode {depth : Nat} {v : Canonical} (h : v.Encodable depth)
    (hkeys : v.DistinctKeys) (rest : Bytes) : skipStrict depth (v.encode ++ rest) = some rest := by
  induction h generalizing rest with
  | natural n =>
    have hhead := shortestHead?_headBytes (show 0 < 8 by decide) n.toNat_lt rest
    rw [encode, skipStrict.eq_def]
    simp only [hhead]
  | @bytes _ bs length =>
    have hhead := shortestHead?_headBytes (show 2 < 8 by decide) length (bs ++ rest)
    rw [encode, byteStringBytes, List.append_assoc, skipStrict.eq_def]
    simp only [hhead, splitExact_append, Option.map_some]
  | text length => exact skipStrict_textBytes length rest
  | bool b =>
    cases b
    · exact skipStrict.eq_def _ _
    · exact skipStrict.eq_def _ _
  | @array depth items length _ ih =>
    cases hkeys with
    | array each =>
      have hitems := skipTimes_flatMap (fun v hv => ih v hv (each v hv)) rest
      have hhead := shortestHead?_headBytes (show 4 < 8 by decide) length
        (items.flatMap encode ++ rest)
      rw [encode, encodeItems_eq, List.append_assoc, skipStrict.eq_def]
      simp only [hhead, hitems]
  | @map depth entries length keys _ ih =>
    cases hkeys with
    | map distinct values =>
      have hperm := sortBy_perm entryKey entries
      have ascending : ([] :: (sortBy entryKey entries).map entryKey).Pairwise (· < ·) := by
        refine List.pairwise_cons.2 ⟨?_, ascending_sortBy (nodup_entryKey distinct)⟩
        exact List.forall_mem_map.2 fun e he => nil_lt_entryKey (keys e (hperm.mem_iff.1 he))
      have hkey (e : String × Canonical) (he : e ∈ sortBy entryKey entries) (rest : Bytes) :
          skipStrict depth (entryKey e ++ rest) = some rest :=
        skipStrict_textBytes (keys e (hperm.mem_iff.1 he)) rest
      have hentries := skipEntries_flatMap hkey
        (fun e he => ih e (hperm.mem_iff.1 he) (values e (hperm.mem_iff.1 he))) ascending rest
      rw [hperm.length_eq] at hentries
      have hhead := shortestHead?_headBytes (show 5 < 8 by decide) length
        (((sortBy entryKey entries).flatMap fun e => textBytes e.1 ++ e.2.encode) ++ rest)
      rw [encode_map, List.append_assoc, skipStrict.eq_def]
      simp only [hhead]
      exact hentries

theorem deterministic_encode {v : Canonical} (h : v.Encodable nestingLimit)
    (hkeys : v.DistinctKeys) : Deterministic v.encode := by
  have hskip := skipStrict_encode h hkeys []
  rwa [List.append_nil] at hskip

theorem encode_map_of_perm {entries others : List (String × Canonical)} (h : entries.Perm others)
    (distinct : (entries.map Prod.fst).Nodup) :
    (Canonical.map entries).encode = (Canonical.map others).encode := by
  rw [encode_map, encode_map, h.length_eq, sortBy_eq_of_perm h (nodup_entryKey distinct)]

end Canonical

namespace Item

mutual

def strictBytes : Item → Bytes
  | .integer (.ofNat n) => headBytes 0 n
  | .integer (.negSucc n) => headBytes 1 n
  | .bytes bs => byteStringBytes bs
  | .text s => textBytes s
  | .bool b => [firstByte 7 (if b then 21 else 20)]
  | .array items => headBytes 4 items.length ++ strictItems items
  | .map entries => headBytes 5 entries.length ++ strictEntries entries
  | .null => []
  | .float _ _ => []
  | .tag _ _ => []

def strictItems : List Item → Bytes
  | [] => []
  | item :: rest => item.strictBytes ++ strictItems rest

def strictEntries : List (Item × Item) → Bytes
  | [] => []
  | (key, value) :: rest => key.strictBytes ++ value.strictBytes ++ strictEntries rest

end

end Item

lemma eq_of_shortestHead? {major n : Nat} {bs rest : Bytes}
    (h : shortestHead? bs = some ((major, n), rest)) :
    ∃ form, Head.read bs = some (⟨major, form, some n⟩, rest) ∧ bs = headBytes major n ++ rest ∧
      (n < 24 → form = n) := by
  rw [shortestHead?] at h
  split at h
  next head form number left hread =>
    split_ifs at h with hleast
    cases h
    obtain ⟨-, front, hspelled, rfl⟩ := Head.spelled_of_read hread
    refine ⟨form, hread, by rw [eq_headBytes_of_spelled hspelled hleast], ?_⟩
    intro hn
    cases hspelled with
    | immediate _ _ => rfl
    | @following _ k hk _ _ =>
      have hlarge : 24 ≤ Head.leastNumber (24 + k) := by
        interval_cases k <;> decide
      omega
  next => cases h

/-- What is passed over is read as an item, and is how the item is written strictly. -/
def Explained (skip : Bytes → Option Bytes) (read : Bytes → Option (Item × Bytes)) : Prop :=
  ∀ bs rest, skip bs = some rest →
    ∃ item, read bs = some (item, rest) ∧ bs = item.strictBytes ++ rest

section Explained
variable {skip : Bytes → Option Bytes} {read : Bytes → Option (Item × Bytes)} {n : Nat}
  {bs rest : Bytes}

lemma Explained.exists_items (h : Explained skip read) (hskip : skipTimes skip n bs = some rest) :
    ∃ items, times read n bs = some (items, rest) ∧ items.length = n ∧
      bs = Item.strictItems items ++ rest := by
  induction n generalizing bs with
  | zero =>
    cases hskip
    exact ⟨[], rfl, rfl, rfl⟩
  | succ n ih =>
    rw [skipTimes] at hskip
    split at hskip
    next => cases hskip
    next left hleft =>
      obtain ⟨item, hread, rfl⟩ := h _ _ hleft
      obtain ⟨items, hreads, rfl, rfl⟩ := ih hskip
      refine ⟨item :: items, ?_, rfl, ?_⟩
      · rw [times, hread]
        simp only [hreads, Option.map_some]
      · rw [Item.strictItems, List.append_assoc]

lemma Explained.exists_entries {last : Bytes} (h : Explained skip read)
    (hskip : skipEntries skip last n bs = some rest) :
    ∃ entries, times (pair read) n bs = some (entries, rest) ∧ entries.length = n ∧
      bs = Item.strictEntries entries ++ rest := by
  induction n generalizing bs last with
  | zero =>
    cases hskip
    exact ⟨[], rfl, rfl, rfl⟩
  | succ n ih =>
    rw [skipEntries] at hskip
    split at hskip
    next => cases hskip
    next afterKey hkey =>
      dsimp only at hskip
      split_ifs at hskip
      split at hskip
      next => cases hskip
      next left hvalue =>
        obtain ⟨key, hreadKey, rfl⟩ := h _ _ hkey
        obtain ⟨value, hreadValue, rfl⟩ := h _ _ hvalue
        obtain ⟨entries, hreads, rfl, rfl⟩ := ih hskip
        refine ⟨(key, value) :: entries, ?_, rfl, ?_⟩
        · simp only [times, pair, hreadKey, hreadValue, hreads, Option.map_some]
        · simp only [Item.strictEntries, List.append_assoc]

end Explained

theorem explained_skipStrict (depth : Nat) :
    Explained (skipStrict depth) (Item.readWithin depth) := by
  induction depth using Nat.strong_induction_on with
  | _ depth ih =>
  intro bs rest h
  rw [skipStrict.eq_def] at h
  rcases hhead : shortestHead? bs with _ | ⟨⟨major, n⟩, tail⟩ <;> simp only [hhead] at h
  · cases h
  obtain ⟨form, hread, rfl, hform⟩ := eq_of_shortestHead? hhead
  -- one case for each kind of item, in the order of their numbers
  split at h
  · cases h
    exact ⟨_, readWithin_natural hread, rfl⟩
  · cases h
    have hneg : -1 - Int.ofNat n = Int.negSucc n := by
      rw [Int.negSucc_eq, Int.ofNat_eq_natCast]
      omega
    refine ⟨_, readWithin_negative hread, ?_⟩
    rw [hneg, Item.strictBytes]
  · obtain ⟨⟨bs, left⟩, hsplit, rfl⟩ := Option.map_eq_some_iff.1 h
    obtain ⟨rfl, rfl⟩ := splitExact_eq_some hsplit
    refine ⟨.bytes bs, readWithin_wholeBytes hread, ?_⟩
    rw [Item.strictBytes, byteStringBytes, List.append_assoc]
  · split at h
    next => cases h
    next text left hsplit =>
    obtain ⟨s, hs, rfl⟩ := Option.map_eq_some_iff.1 h
    obtain ⟨rfl, rfl⟩ := splitExact_eq_some hsplit
    obtain rfl := Text.utf8_of_ofUtf8? hs
    refine ⟨.text s, readWithin_wholeText hread, ?_⟩
    rw [Item.strictBytes, textBytes, List.append_assoc]
  · cases depth with
    | zero => cases h
    | succ depth =>
      obtain ⟨items, hreads, rfl, rfl⟩ := (ih depth (Nat.lt_succ_self depth)).exists_items h
      refine ⟨.array items, readWithin_array hread hreads, ?_⟩
      rw [Item.strictBytes, List.append_assoc]
  · cases depth with
    | zero => cases h
    | succ depth =>
      obtain ⟨entries, hreads, rfl, rfl⟩ := (ih depth (Nat.lt_succ_self depth)).exists_entries h
      refine ⟨.map entries, readWithin_map hread hreads, ?_⟩
      rw [Item.strictBytes, List.append_assoc]
  · split_ifs at h with hn
    cases h
    rcases hn with rfl | rfl
    · exact ⟨.bool false, readWithin_simple hread (by rw [hform (by decide)]; decide) rfl, rfl⟩
    · exact ⟨.bool true, readWithin_simple hread (by rw [hform (by decide)]; decide) rfl, rfl⟩
  · cases h

/-- Deterministic bytes are told apart by the item that they are read as. -/
theorem eq_of_deterministic {bs others : Bytes} (h : Deterministic bs)
    (hothers : Deterministic others) (hread : Item.read bs = Item.read others) : bs = others := by
  obtain ⟨item, hitem, hbs⟩ := explained_skipStrict _ _ _ h
  obtain ⟨item', hitem', hbs'⟩ := explained_skipStrict _ _ _ hothers
  rw [Item.read, Item.read, hitem, hitem'] at hread
  cases hread
  rw [hbs, hbs']

/-- A number, a length and a map, each written in two ways. -/
example : (Deterministic [0x17] ∧ ¬Deterministic [0x18, 0x17]) ∧
    (Deterministic [0x61, 0x61] ∧ ¬Deterministic [0x7f, 0x61, 0x61, 0xff]) ∧
    Deterministic [0xa2, 0x61, 0x61, 1, 0x61, 0x62, 2] ∧
    ¬Deterministic [0xa2, 0x61, 0x62, 2, 0x61, 0x61, 1] := by decide +kernel

end SignedNames.Cbor
