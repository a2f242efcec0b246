import Mathlib
import SignedNames.Json.Tree
import SignedNames.Proofs.Json.ReadBack
import SignedNames.Proofs.NameMap

/-!
# Values of scanned trees

What a text is scanned into is nested no deeper than the scanner goes, and lists the members of
objects by key. So a value that was scanned and holds no floating-point number can be written, and
is the value of the tree that its text is scanned into.
-/
namespace SignedNames

namespace Json

def Number.Scanned (n : Number) : Prop := ∀ magnitude, n = .negative magnitude → Scan.Negative magnitude

/-- A tree that is nested at most so deep, with numbers as texts hold them. -/
inductive Tree.Within : Nat → Tree → Prop
  | null (depth : Nat) : Within depth .null
  | bool (depth : Nat) (b : Bool) : Within depth (.bool b)
  | number (depth : Nat) {n : Number} (h : n.Scanned) : Within depth (.number n)
  | text (depth : Nat) (s : String) : Within depth (.text s)
  | array {depth : Nat} {items : List Tree} (closed : Bool) (h : ∀ t ∈ items, Within depth t) :
    Within (depth + 1) (.array items closed)
  | object {depth : Nat} {members : List (Option String × Tree)} (closed : Bool)
    (h : ∀ m ∈ members, Within depth m.2) : Within (depth + 1) (.object members closed)
  | unreadable (depth : Nat) : Within depth .unreadable
  | fault (depth : Nat) : Within depth .fault

namespace Scan

lemma number?_scanned {negative : Bool} {whole : List Nat} {fraction : Option (List Nat)}
    {exponent : Option Int} {n : Number} (h : number? negative whole fraction exponent = some n) :
    n.Scanned := by
  have hfloat {significand : Nat} {e : Int} {n : Number}
      (h : (Decimal.bitsOfScientific? negative (UInt64.ofNat significand) e).map Number.float =
        some n) : n.Scanned := by
    obtain ⟨bits, -, rfl⟩ := Option.map_eq_some_iff.1 h
    exact nofun
  unfold number? at h
  simp only at h
  split at h
  · split at h
    · exact hfloat h
    · split at h
      · split at h
        · rename_i hrange
          cases h
          intro magnitude hmagnitude
          cases hmagnitude
          have hsize : (appendDigits 0 whole).1 < UInt64.size := by
            have hbound : 0x8000000000000000 < UInt64.size := by decide
            omega
          rw [Negative, UInt64.toNat_ofNat_of_lt' hsize]
          exact hrange
        · exact hfloat h
      · cases h
        exact nofun
  · exact hfloat h

lemma unsigned_scanned {negative : Bool} {cs left : List Char} {n : Number}
    (h : unsigned negative cs = some (some n, left)) : n.Scanned := by
  unfold unsigned at h
  split at h
  · cases h
  · split at h
    · cases h
    · split at h
      · cases h
      · obtain ⟨p, -, hp⟩ := Option.map_eq_some_iff.1 h
        exact number?_scanned (congrArg Prod.fst hp)

lemma meaning_text_within (depth : Nat) (s : Option String) :
    (meaning (s.map .text)).Within depth := by
  cases s with
  | none => exact .unreadable depth
  | some s => exact .text depth s

lemma scalar?_within {cs left : List Char} {t : Tree} (h : scalar? cs = some (t, left))
    (depth : Nat) : t.Within depth := by
  have hnumber {negative : Bool} {cs : List Char}
      (h : (unsigned negative cs).map (fun p => (meaning (p.1.map .number), p.2)) =
        some (t, left)) : t.Within depth := by
    obtain ⟨⟨n, rest⟩, hn, hp⟩ := Option.map_eq_some_iff.1 h
    cases hp
    cases n with
    | none => exact .unreadable depth
    | some n => exact .number depth (unsigned_scanned hn)
  unfold scalar? at h
  split at h
  · obtain ⟨_, -, hp⟩ := Option.map_eq_some_iff.1 h
    cases hp
    exact .null depth
  · obtain ⟨_, -, hp⟩ := Option.map_eq_some_iff.1 h
    cases hp
    exact .bool depth true
  · obtain ⟨_, -, hp⟩ := Option.map_eq_some_iff.1 h
    cases hp
    exact .bool depth false
  · obtain ⟨⟨s, rest⟩, -, hp⟩ := Option.map_eq_some_iff.1 h
    cases hp
    exact meaning_text_within depth s
  · exact hnumber h
  · exact hnumber h

section

variable {scanner : List Char → Tree × List Char} {depth : Nat}

lemma items_within (h : ∀ cs, (scanner cs).1.Within depth) (characters : Nat) (cs : List Char) :
    ∀ t ∈ (items scanner characters cs).1, t.Within depth := by
  induction characters generalizing cs with
  | zero => exact List.forall_mem_nil _
  | succ characters ih =>
    have hitem := h cs
    rw [items]
    generalize scanner cs = scanned at hitem ⊢
    obtain ⟨item, rest⟩ := scanned
    simp only
    split
    · split
      · exact List.forall_mem_cons.2 ⟨hitem, ih _⟩
      · exact List.forall_mem_singleton.2 hitem
      · exact List.forall_mem_singleton.2 hitem
    · exact List.forall_mem_singleton.2 hitem

lemma members_within (h : ∀ cs, (scanner cs).1.Within depth) (characters : Nat) (cs : List Char) :
    ∀ m ∈ (members scanner characters cs).1, m.2.Within depth := by
  induction characters generalizing cs with
  | zero => exact List.forall_mem_nil _
  | succ characters ih =>
    rw [members]
    cases key? cs with
    | none => exact List.forall_mem_nil _
    | some p =>
      obtain ⟨key, rest⟩ := p
      have hitem : (((colon? rest).map scanner).getD (.fault, [])).1.Within depth := by
        cases colon? rest with
        | none => exact .fault depth
        | some rest => exact h rest
      simp only
      generalize ((colon? rest).map scanner).getD (.fault, []) = scanned at hitem ⊢
      obtain ⟨item, left⟩ := scanned
      simp only
      split
      · split
        · exact List.forall_mem_cons.2 ⟨hitem, ih _⟩
        · exact List.forall_mem_singleton.2 hitem
        · exact List.forall_mem_singleton.2 hitem
      · exact List.forall_mem_singleton.2 hitem

end

lemma passed_within (characters : Nat) (b : Bracket) (cs : List Char) (depth : Nat) :
    (passed characters b cs).1.Within depth := by
  rw [passed]
  split
  · exact .unreadable depth
  · exact .fault depth

lemma getD_scalar?_within (cs : List Char) (depth : Nat) :
    ((scalar? cs).getD (.fault, [])).1.Within depth := by
  cases h : scalar? cs with
  | none => exact .fault depth
  | some p =>
    obtain ⟨t, left⟩ := p
    exact scalar?_within h depth

/-- A scanned tree is nested no deeper than the scanner goes. -/
theorem value_within (characters depth : Nat) (cs : List Char) :
    (value characters depth cs).1.Within depth := by
  induction depth generalizing cs with
  | zero =>
    rw [value.eq_def]
    simp only
    split
    · exact passed_within ..
    · exact passed_within ..
    · exact getD_scalar?_within ..
  | succ depth ih =>
    have hitems {cs : List Char} {found : List Tree} {left : Option (List Char)}
        (h : items (value characters depth) characters cs = (found, left)) :
        ∀ t ∈ found, t.Within depth := by
      have hwithin := items_within ih characters cs
      rw [h] at hwithin
      exact hwithin
    have hmembers {cs : List Char} {found : List (Option String × Tree)}
        {left : Option (List Char)}
        (h : members (value characters depth) characters cs = (found, left)) :
        ∀ m ∈ found, m.2.Within depth := by
      have hwithin := members_within ih characters cs
      rw [h] at hwithin
      exact hwithin
    rw [value.eq_def]
    simp only
    split
    · split
      · exact .array true (List.forall_mem_nil _)
      · split
        · rename_i heq
          exact .array true (hitems heq)
        · rename_i heq
          exact .array false (hitems heq)
    · split
      · exact .object true (List.forall_mem_nil _)
      · split
        · rename_i heq
          exact .object true (hmembers heq)
        · rename_i heq
          exact .object false (hmembers heq)
    · exact getD_scalar?_within ..

end Scan

theorem scan_within (s : String) : (scan s).1.Within nestingLimit := Scan.value_within ..

namespace Value

inductive FloatFree : Value → Prop
  | null : FloatFree .null
  | bool (b : Bool) : FloatFree (.bool b)
  | natural (n : UInt64) : FloatFree (.number (.natural n))
  | negative (magnitude : UInt64) : FloatFree (.number (.negative magnitude))
  | text (s : String) : FloatFree (.text s)
  | array {items : List Value} (h : ∀ v ∈ items, FloatFree v) : FloatFree (.array items)
  | object {members : List (String × Value)} (h : ∀ m ∈ members, FloatFree m.2) :
    FloatFree (.object members)

inductive Ordered : Value → Prop
  | null : Ordered .null
  | bool (b : Bool) : Ordered (.bool b)
  | number (n : Number) : Ordered (.number n)
  | text (s : String) : Ordered (.text s)
  | array {items : List Value} (h : ∀ v ∈ items, Ordered v) : Ordered (.array items)
  | object {members : List (String × Value)} (ascending : members.Pairwise fun a b => a.1 < b.1)
    (h : ∀ m ∈ members, Ordered m.2) : Ordered (.object members)

end Value

lemma exists_of_itemValues? {items : List Tree} {vs : List Value} (h : itemValues? items = some vs) :
    ∀ v ∈ vs, ∃ t ∈ items, t.value? = some v := by
  induction items generalizing vs with
  | nil =>
    cases h
    exact nofun
  | cons item items ih =>
    rw [itemValues?] at h
    split at h
    · rename_i v vs' hv hvs
      cases h
      refine List.forall_mem_cons.2 ⟨⟨item, List.mem_cons_self .., hv⟩, fun u hu => ?_⟩
      obtain ⟨t, ht, htu⟩ := ih hvs u hu
      exact ⟨t, List.mem_cons_of_mem _ ht, htu⟩
    · cases h

lemma exists_of_memberValues? {members : List (Option String × Tree)} {ms : List (String × Value)}
    (h : memberValues? members = some ms) :
    ∀ m ∈ ms, ∃ t ∈ members, t.2.value? = some m.2 := by
  induction members generalizing ms with
  | nil =>
    cases h
    exact nofun
  | cons member members ih =>
    obtain ⟨key, tree⟩ := member
    rw [memberValues?.eq_def] at h
    simp only at h
    split at h
    · rename_i key v ms' hv hms
      cases h
      refine List.forall_mem_cons.2 ⟨⟨(some key, tree), List.mem_cons_self .., hv⟩, fun u hu => ?_⟩
      obtain ⟨t, ht, htu⟩ := ih hms u hu
      exact ⟨t, List.mem_cons_of_mem _ ht, htu⟩
    · cases h

/-- The value of a scanned tree can be written, if it holds no floating-point number. -/
theorem Tree.Within.value {depth : Nat} {t : Tree} (h : t.Within depth) {v : Value}
    (hv : t.value? = some v) (hfloat : v.FloatFree) : v.Within depth ∧ v.Ordered := by
  induction h generalizing v with
  | null depth =>
    cases hv
    exact ⟨.null depth, .null⟩
  | bool depth b =>
    cases hv
    exact ⟨.bool depth b, .bool b⟩
  | number depth h =>
    cases hv
    cases hfloat with
    | natural n => exact ⟨.natural depth n, .number _⟩
    | negative magnitude => exact ⟨.negative depth (h magnitude rfl), .number _⟩
  | text depth s =>
    cases hv
    exact ⟨.text depth s, .text s⟩
  | @array depth items closed h ih =>
    rw [Tree.value?] at hv
    split at hv
    · obtain ⟨vs, hvs, rfl⟩ := Option.map_eq_some_iff.1 hv
      have hall : ∀ u ∈ vs, u.Within depth ∧ u.Ordered := by
        intro u hu
        obtain ⟨t, ht, htu⟩ := exists_of_itemValues? hvs u hu
        cases hfloat with
        | array hfloat => exact ih t ht htu (hfloat u hu)
      exact ⟨.array fun u hu => (hall u hu).1, .array fun u hu => (hall u hu).2⟩
    · cases hv
  | @object depth members closed h ih =>
    rw [Tree.value?] at hv
    split at hv
    · obtain ⟨found, hfound, rfl⟩ := Option.map_eq_some_iff.1 hv
      have hall : ∀ m ∈ (NameMap.ofList found).entries, m.2.Within depth ∧ m.2.Ordered := by
        intro m hm
        obtain ⟨t, ht, htm⟩ := exists_of_memberValues? hfound m (NameMap.mem_of_mem_ofList hm)
        cases hfloat with
        | object hfloat => exact ih t ht htm (hfloat m hm)
      exact ⟨.object fun m hm => (hall m hm).1,
        .object (NameMap.ofList found).ascending fun m hm => (hall m hm).2⟩
    · cases hv
  | unreadable => cases hv
  | fault => cases hv

lemma itemValues?_itemTrees {vs : List Value} (h : ∀ v ∈ vs, v.tree.value? = some v) :
    itemValues? (Value.itemTrees vs) = some vs := by
  induction vs with
  | nil => rfl
  | cons v vs ih =>
    obtain ⟨hv, hvs⟩ := List.forall_mem_cons.1 h
    rw [Value.itemTrees, itemValues?, hv, ih hvs]

lemma memberValues?_memberTrees {ms : List (String × Value)}
    (h : ∀ m ∈ ms, m.2.tree.value? = some m.2) : memberValues? (Value.memberTrees ms) = some ms := by
  induction ms with
  | nil => rfl
  | cons m ms ih =>
    obtain ⟨hm, hms⟩ := List.forall_mem_cons.1 h
    rw [Value.memberTrees, memberValues?.eq_def]
    simp only [hm, ih hms]

theorem Value.Ordered.value?_tree {v : Value} (h : v.Ordered) : v.tree.value? = some v := by
  induction h with
  | array h ih => rw [tree, Tree.value?, if_pos rfl, itemValues?_itemTrees ih, Option.map_some]
  | @object members ascending h ih =>
    have hentries : (NameMap.ofList members).entries = members :=
      congrArg NameMap.entries (NameMap.ofList_entries ⟨members, ascending⟩)
    rw [tree, Tree.value?, if_pos rfl, memberValues?_memberTrees ih, Option.map_some, hentries]
  | _ => rfl

end Json
end SignedNames
