/-!
# Tables

A finite map with keys of any kind that can be compared. Only look-ups tell tables apart; the order
of their entries means nothing.
-/
namespace SignedNames

structure Table (κ α : Type) where
  entries : List (κ × α)
  distinct : (entries.map (·.1)).Nodup

namespace Table

variable {κ α : Type}

def empty : Table κ α := ⟨[], List.nodup_nil⟩

instance : Inhabited (Table κ α) := ⟨empty⟩

variable [DecidableEq κ]

def get? (t : Table κ α) (key : κ) : Option α :=
  (t.entries.find? fun e => decide (e.1 = key)).map (·.2)

def set (t : Table κ α) (key : κ) (value : α) : Table κ α :=
  ⟨(key, value) :: t.entries.filter fun e => !decide (e.1 = key), by
    refine List.nodup_cons.2 ⟨?_, ?_⟩
    · simp
    · exact List.Nodup.sublist (List.Sublist.map _ List.filter_sublist) t.distinct⟩

def setIfMissing (t : Table κ α) (key : κ) (value : α) : Table κ α :=
  match t.get? key with
  | some _ => t
  | none => t.set key value

def size (t : Table κ α) : Nat := t.entries.length

@[simp] theorem get?_empty (key : κ) : (empty : Table κ α).get? key = none := rfl

theorem get?_set (t : Table κ α) (key : κ) (value : α) (k : κ) :
    (t.set key value).get? k = if key = k then some value else t.get? k := by
  unfold get? set
  by_cases h : key = k
  · simp [h]
  · simp only [List.find?_cons, h, decide_false, if_false]
    congr 1
    induction t.entries with
    | nil => rfl
    | cons e rest ih =>
      by_cases he : e.1 = key
      · have hk : e.1 ≠ k := fun hek => h (he.symm.trans hek)
        simp [he, ih, h]
      · by_cases hk : e.1 = k
        · have hkk : ¬ k = key := fun hkk => h hkk.symm
          simp [hk, hkk]
        · simp [he, hk, ih]

end Table
end SignedNames
