/-!
# Maps from names

A finite map with text keys, kept in ascending order of its keys. The order makes two maps with the
same look-ups equal, and it is the order in which documents list the keys.
-/
namespace SignedNames

/-- Entries in strictly ascending order of their keys. -/
structure NameMap (α : Type) where
  entries : List (String × α)
  ascending : entries.Pairwise fun a b => a.1 < b.1

namespace NameMap

variable {α β : Type}

/-- Entries with one key set, the rest kept in order. -/
def insertEntry (key : String) (value : α) : List (String × α) → List (String × α)
  | [] => [(key, value)]
  | (k, v) :: rest =>
    if key < k then (key, value) :: (k, v) :: rest
    else if k < key then (k, v) :: insertEntry key value rest
    else (key, value) :: rest

theorem mem_insertEntry {key : String} {value : α} {entries : List (String × α)}
    {e : String × α} (h : e ∈ insertEntry key value entries) :
    e = (key, value) ∨ e ∈ entries := by
  induction entries with
  | nil => simpa [insertEntry] using h
  | cons entry rest ih =>
    obtain ⟨k, v⟩ := entry
    simp only [insertEntry] at h
    split at h
    · simpa using h
    · split at h
      · rcases List.mem_cons.1 h with rfl | h
        · simp
        · rcases ih h with rfl | h <;> simp [*]
      · rcases List.mem_cons.1 h with rfl | h <;> simp [*]

theorem pairwise_insertEntry (key : String) (value : α) {entries : List (String × α)}
    (h : entries.Pairwise fun a b => a.1 < b.1) :
    (insertEntry key value entries).Pairwise fun a b => a.1 < b.1 := by
  induction entries with
  | nil => simp [insertEntry]
  | cons entry rest ih =>
    obtain ⟨k, v⟩ := entry
    obtain ⟨hk, hrest⟩ := List.pairwise_cons.1 h
    simp only [insertEntry]
    split
    · rename_i hlt
      refine List.pairwise_cons.2 ⟨fun e he => ?_, h⟩
      rcases List.mem_cons.1 he with rfl | he
      · exact hlt
      · exact String.lt_trans hlt (hk e he)
    · split
      · rename_i hgt
        refine List.pairwise_cons.2 ⟨fun e he => ?_, ih hrest⟩
        rcases mem_insertEntry he with rfl | he
        · exact hgt
        · exact hk e he
      · rename_i hnlt hngt
        have hkey : key = k := String.le_antisymm (String.not_lt.1 hngt) (String.not_lt.1 hnlt)
        exact List.pairwise_cons.2 ⟨fun e he => hkey ▸ hk e he, hrest⟩

def empty : NameMap α := ⟨[], List.Pairwise.nil⟩

instance : Inhabited (NameMap α) := ⟨empty⟩

def insert (m : NameMap α) (key : String) (value : α) : NameMap α :=
  ⟨insertEntry key value m.entries, pairwise_insertEntry key value m.ascending⟩

def get? (m : NameMap α) (key : String) : Option α := m.entries.lookup key

def keys (m : NameMap α) : List String := m.entries.map (·.1)

/-- Entries put in one after the other, so that the last one with a key counts. -/
def ofList (entries : List (String × α)) : NameMap α :=
  entries.foldl (fun m e => m.insert e.1 e.2) empty

def map (f : α → β) (m : NameMap α) : NameMap β :=
  ⟨m.entries.map fun e => (e.1, f e.2), by
    rw [List.pairwise_map]
    exact m.ascending⟩

/-- The keys changed; where two become equal, the one that came later counts. -/
def mapKeys (f : String → String) (m : NameMap α) : NameMap α :=
  ofList (m.entries.map fun e => (f e.1, e.2))

def modify? (m : NameMap α) (key : String) (f : α → α) : Option (NameMap α) :=
  (m.get? key).map fun value => m.insert key (f value)

theorem ext_entries {m n : NameMap α} (h : m.entries = n.entries) : m = n := by
  cases m; cases n; cases h; rfl

end NameMap
end SignedNames
