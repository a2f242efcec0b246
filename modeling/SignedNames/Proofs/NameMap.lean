import Mathlib
import SignedNames.NameMap

/-!
# Look-ups in maps from names

Setting a key changes one look-up, and a map is put together again from its own entries. Which keys
it has is all that the list of its keys depends on.
-/
namespace SignedNames.NameMap

variable {α : Type}

@[simp] theorem get?_empty (key : String) : (empty : NameMap α).get? key = none := rfl

lemma lookup_cons_eq (e : String × α) (entries : List (String × α)) (k : String) :
    (e :: entries).lookup k = if k = e.1 then some e.2 else entries.lookup k := by
  rw [List.lookup_cons]
  by_cases h : k = e.1
  · simp [h]
  · rw [if_neg h, beq_false_of_ne h]

lemma lookup_insertEntry (key : String) (value : α) (entries : List (String × α)) (k : String) :
    (insertEntry key value entries).lookup k =
      if k = key then some value else entries.lookup k := by
  induction entries with
  | nil => rw [insertEntry, lookup_cons_eq]
  | cons entry rest ih =>
    obtain ⟨k', v⟩ := entry
    simp only [insertEntry]
    split
    · rw [lookup_cons_eq]
    · split
      · rename_i hnlt hlt
        have hne : k' ≠ key := fun h => String.lt_irrefl k' (h ▸ hlt)
        rw [lookup_cons_eq, lookup_cons_eq, ih]
        by_cases h : k = k' <;> simp [h, hne]
      · rename_i hnlt hngt
        have hkey : key = k' := String.le_antisymm (String.not_lt.1 hngt) (String.not_lt.1 hnlt)
        rw [lookup_cons_eq, lookup_cons_eq, hkey]
        by_cases h : k = k' <;> simp [h]

@[simp] theorem get?_insert (m : NameMap α) (key : String) (value : α) (k : String) :
    (m.insert key value).get? k = if k = key then some value else m.get? k :=
  lookup_insertEntry key value m.entries k

lemma insertEntry_append {key : String} {value : α} {entries : List (String × α)}
    (h : ∀ e ∈ entries, e.1 < key) : insertEntry key value entries = entries ++ [(key, value)] := by
  induction entries with
  | nil => rfl
  | cons e rest ih =>
    obtain ⟨he, hrest⟩ := List.forall_mem_cons.1 h
    have hnlt : ¬ key < e.1 := fun hlt => String.lt_irrefl _ (String.lt_trans he hlt)
    simp only [insertEntry, if_neg hnlt, if_pos he, ih hrest, List.cons_append]

lemma foldl_insert_entries (m : NameMap α) (entries : List (String × α))
    (h : (m.entries ++ entries).Pairwise fun a b => a.1 < b.1) :
    (entries.foldl (fun m e => m.insert e.1 e.2) m).entries = m.entries ++ entries := by
  induction entries generalizing m with
  | nil => simp
  | cons e rest ih =>
    have hlast : ∀ e' ∈ m.entries, e'.1 < e.1 := fun e' he' =>
      (List.pairwise_append.1 h).2.2 e' he' e (List.mem_cons_self ..)
    have hinsert : (m.insert e.1 e.2).entries = m.entries ++ [e] := insertEntry_append hlast
    rw [List.foldl_cons, ih _ (by simpa [hinsert] using h), hinsert, List.append_assoc]
    rfl

@[simp] theorem ofList_entries (m : NameMap α) : ofList m.entries = m :=
  ext_entries (foldl_insert_entries empty m.entries m.ascending)

theorem mapKeys_eq_self {m : NameMap α} {f : String → String}
    (h : ∀ e ∈ m.entries, f e.1 = e.1) : m.mapKeys f = m := by
  have hmap : (m.entries.map fun e => (f e.1, e.2)) = m.entries := by
    conv_rhs => rw [← List.map_id m.entries]
    exact List.map_congr_left fun e he => by rw [h e he]; rfl
  rw [mapKeys, hmap, ofList_entries]

lemma forall_entries_insert {m : NameMap α} {key : String} {value : α} {P : String → Prop}
    (hkey : P key) (h : ∀ e ∈ m.entries, P e.1) : ∀ e ∈ (m.insert key value).entries, P e.1 := by
  intro e he
  rcases mem_insertEntry he with rfl | he
  · exact hkey
  · exact h e he

lemma mem_of_mem_ofList {es : List (String × α)} {e : String × α} (h : e ∈ (ofList es).entries) :
    e ∈ es := by
  have hfoldl : ∀ m : NameMap α, e ∈ (es.foldl (fun m e => m.insert e.1 e.2) m).entries →
      e ∈ m.entries ∨ e ∈ es := by
    clear h
    induction es with
    | nil => exact fun m h => .inl h
    | cons first es ih =>
      intro m h
      rcases ih _ h with h | h
      · rcases mem_insertEntry h with rfl | h
        · exact .inr (List.mem_cons_self ..)
        · exact .inl h
      · exact .inr (List.mem_cons_of_mem _ h)
  rcases hfoldl empty h with h | h
  · exact absurd h List.not_mem_nil
  · exact h

theorem get?_ofList (es : List (String × α)) (k : String) :
    (ofList es).get? k = es.reverse.lookup k := by
  have hfoldl : ∀ m : NameMap α, (es.foldl (fun m e => m.insert e.1 e.2) m).get? k =
      (es.reverse.lookup k).or (m.get? k) := by
    induction es with
    | nil => exact fun m => rfl
    | cons e es ih =>
      intro m
      rw [List.foldl_cons, ih, get?_insert, List.reverse_cons, List.lookup_append, lookup_cons_eq,
        Option.or_assoc]
      by_cases h : k = e.1 <;> simp [h]
  rw [ofList, hfoldl empty, get?_empty, Option.or_none]

lemma lookup_map {β : Type} (f : α → β) (es : List (String × α)) (k : String) :
    (es.map fun e => (e.1, f e.2)).lookup k = (es.lookup k).map f := by
  induction es with
  | nil => rfl
  | cons e es ih =>
    rw [List.map_cons, lookup_cons_eq, lookup_cons_eq, ih]
    split <;> rfl

lemma lookup_eq_of_perm {es fs : List (String × α)} (h : es.Perm fs)
    (distinct : (es.map (·.1)).Nodup) (k : String) : es.lookup k = fs.lookup k := by
  induction h with
  | nil => rfl
  | cons e h ih =>
    rw [List.map_cons, List.nodup_cons] at distinct
    rw [lookup_cons_eq, lookup_cons_eq, ih distinct.2]
  | swap e f es =>
    have hne : f.1 ≠ e.1 := by
      rw [List.map_cons, List.map_cons, List.nodup_cons, List.mem_cons, not_or] at distinct
      exact distinct.1.1
    simp only [lookup_cons_eq]
    by_cases hf : k = f.1
    · rw [if_pos hf, if_neg (hf ▸ hne), if_pos hf]
    · rw [if_neg hf, if_neg hf]
  | trans h₁ h₂ ih₁ ih₂ => exact (ih₁ distinct).trans (ih₂ ((h₁.map _).nodup_iff.1 distinct))

lemma mem_keys_iff {m : NameMap α} {k : String} : k ∈ m.keys ↔ (m.get? k).isSome := by
  simp only [keys, get?, List.mem_map, List.lookup_isSome_iff, beq_iff_eq]
  exact exists_congr fun e => and_congr_right fun _ => eq_comm

lemma mem_keys_insert {m : NameMap α} {key : String} {value : α} {k : String} :
    k ∈ (m.insert key value).keys ↔ k = key ∨ k ∈ m.keys := by
  rw [mem_keys_iff, mem_keys_iff, get?_insert]
  by_cases h : k = key <;> simp [h]

theorem mem_keys_ofList {es : List (String × α)} {k : String} :
    k ∈ (ofList es).keys ↔ k ∈ es.map (·.1) := by
  have hfoldl : ∀ m : NameMap α, k ∈ (es.foldl (fun m e => m.insert e.1 e.2) m).keys ↔
      k ∈ m.keys ∨ k ∈ es.map (·.1) := by
    induction es with
    | nil => simp
    | cons e es ih =>
      intro m
      rw [List.foldl_cons, ih, mem_keys_insert, List.map_cons, List.mem_cons]
      tauto
  rw [ofList, hfoldl]
  exact or_iff_right List.not_mem_nil

/-- Keys come in order, so that it only matters which they are. -/
theorem keys_congr {β : Type} {m : NameMap α} {n : NameMap β} (h : ∀ k, k ∈ m.keys ↔ k ∈ n.keys) :
    m.keys = n.keys := by
  have hkeys {γ : Type} (m : NameMap γ) : m.keys.Pairwise (· < ·) := List.pairwise_map.2 m.ascending
  exact (hkeys m).eq_of_mem_iff (hkeys n) fun k => h k

theorem keys_ofList_congr {β : Type} {es : List (String × α)} {fs : List (String × β)}
    (h : ∀ k, k ∈ es.map (·.1) ↔ k ∈ fs.map (·.1)) : (ofList es).keys = (ofList fs).keys :=
  keys_congr fun k => by rw [mem_keys_ofList, mem_keys_ofList, h]

end SignedNames.NameMap
