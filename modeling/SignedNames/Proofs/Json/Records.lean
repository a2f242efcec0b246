import Mathlib
import SignedNames.Json.Record
import SignedNames.Proofs.Json.ScannedValues

/-!
# Records read back

An object whose members are those that a record declares, each of its kind and none twice, followed
by others, is sorted into the one and the other.
-/
namespace SignedNames.Json

section

variable {ε α β : Type}

lemma exists_of_bind_eq_ok {x : Except ε α} {f : α → Except ε β} {b : β}
    (h : (x >>= f) = .ok b) : ∃ a, x = .ok a ∧ f a = .ok b := by
  cases x with
  | error e => cases h
  | ok a => exact ⟨a, rfl, h⟩

lemma exists_of_map_eq_ok {x : Except ε α} {f : α → β} {b : β} (h : x.map f = .ok b) :
    ∃ a, x = .ok a ∧ f a = b := by
  cases x with
  | error e => cases h
  | ok a => exact ⟨a, rfl, Except.ok.inj h⟩

lemma exists_of_mapError_eq_ok {ε' : Type} {x : Except ε α} {f : ε → ε'} {a : α}
    (h : x.mapError f = .ok a) : x = .ok a := by
  cases x with
  | error e => cases h
  | ok a' => exact congrArg Except.ok (Except.ok.inj h)

lemma exists_of_mapM_eq_ok {f : α → Except ε β} {as : List α} {bs : List β}
    (h : as.mapM f = .ok bs) : ∀ b ∈ bs, ∃ a ∈ as, f a = .ok b := by
  induction as generalizing bs with
  | nil =>
    cases h
    exact List.forall_mem_nil _
  | cons a as ih =>
    rw [List.mapM_cons] at h
    obtain ⟨b, hb, h⟩ := exists_of_bind_eq_ok h
    obtain ⟨bs, hbs, h⟩ := exists_of_bind_eq_ok h
    cases h
    refine List.forall_mem_cons.2 ⟨⟨a, List.mem_cons_self .., hb⟩, fun b' hb' => ?_⟩
    obtain ⟨a', ha', hab⟩ := ih hbs b' hb'
    exact ⟨a', List.mem_cons_of_mem _ ha', hab⟩

end

lemma scan_of_parse {α : Type} {read : Reader α} {s : String} {a : α} (h : parse read s = .ok a) :
    ∃ t, scan s = (t, true) ∧ read t = .ok a := by
  rw [parse] at h
  generalize scan s = scanned at h ⊢
  obtain ⟨tree, clean⟩ := scanned
  simp only at h
  cases hread : read tree with
  | error fault =>
    rw [hread] at h
    cases h
  | ok a' =>
    rw [hread] at h
    cases clean
    · cases h
    · cases h
      exact ⟨tree, rfl, hread⟩

lemma read_of_parse {α : Type} {read : Reader α} {s : String} {a : α} (h : parse read s = .ok a) :
    read (scan s).1 = .ok a := by
  obtain ⟨t, hscan, hread⟩ := scan_of_parse h
  rw [hscan]
  exact hread

lemma parse_of_scan {α : Type} {read : Reader α} {s : String} {t : Tree} {a : α}
    (hscan : scan s = (t, true)) (h : read t = .ok a) : parse read s = .ok a := by
  rw [parse, hscan]
  simp only [h, if_true]

lemma Value.memberTrees_eq (members : List (String × Value)) :
    Value.memberTrees members = members.map fun m => (some m.1, m.2.tree) := by
  induction members with
  | nil => rfl
  | cons m members ih => rw [Value.memberTrees, ih, List.map_cons]

def Tree.lastMember? (key : String) : Tree → Option Tree
  | .object members _ => members.reverse.lookup (some key)
  | _ => none

namespace Record

def Declares (fields : List Field) (m : String × Tree) : Prop :=
  ∃ f, (fields.find? fun f => decide (f.Names m.1)) = some f ∧ f.name = m.1 ∧ f.check m.2 = .ok ()

def Admits (fields : List Field) (other : Reader Unit) (m : String × Tree) : Prop :=
  (fields.find? fun f => decide (f.Names m.1)) = none ∧ other m.2 = .ok ()

variable {fields : List Field} {other : Reader Unit}

def field? (fields : List Field) (key : String) : Option Field :=
  fields.find? fun f => decide (f.Names key)

/-- The members with a declaration, under the names that they are declared with. -/
def declared (fields : List Field) (ms : List (String × Tree)) : List (String × Tree) :=
  ms.filterMap fun m => (field? fields m.1).map fun f => (f.name, m.2)

def undeclared (fields : List Field) (ms : List (String × Tree)) : List (String × Tree) :=
  ms.filter fun m => (field? fields m.1).isNone

def Passes (fields : List Field) (other : Reader Unit) (m : String × Tree) : Prop :=
  match field? fields m.1 with
  | some f => f.check m.2 = .ok ()
  | none => other m.2 = .ok ()

lemma passes_of_none {m : String × Tree} (hfield : field? fields m.1 = none)
    (h : other m.2 = .ok ()) : Passes fields other m := by
  rw [Passes, hfield]
  exact h

lemma sort_cons_of_none {m : String × Tree} (ms : List (String × Tree))
    (h : field? fields m.1 = none) :
    declared fields (m :: ms) = declared fields ms ∧
      undeclared fields (m :: ms) = m :: undeclared fields ms := by
  simp [declared, undeclared, h]

lemma sort_cons_of_some {m : String × Tree} {f : Field} (ms : List (String × Tree))
    (h : field? fields m.1 = some f) :
    declared fields (m :: ms) = (f.name, m.2) :: declared fields ms ∧
      undeclared fields (m :: ms) = undeclared fields ms := by
  simp [declared, undeclared, h]

/-- Members in any order are sorted, if all of them pass and none is declared twice. -/
theorem checkMembers_sorted {ms : List (String × Tree)} {seen : List String}
    (hpasses : ∀ m ∈ ms, Passes fields other m)
    (distinct : ((declared fields ms).map (·.1)).Nodup)
    (fresh : ∀ m ∈ declared fields ms, m.1 ∉ seen) :
    checkMembers fields other seen (ms.map fun m => (some m.1, m.2)) =
      .ok (declared fields ms, undeclared fields ms) := by
  induction ms generalizing seen with
  | nil => rfl
  | cons m ms ih =>
    obtain ⟨hm, hms⟩ := List.forall_mem_cons.1 hpasses
    rw [Passes] at hm
    rw [List.map_cons, checkMembers]
    cases hfield : field? fields m.1 with
    | none =>
      obtain ⟨hdeclared, hundeclared⟩ := sort_cons_of_none ms hfield
      rw [hfield] at hm
      rw [hdeclared] at distinct fresh
      rw [field?] at hfield
      simp only [hfield, hm, ih hms distinct fresh, hdeclared, hundeclared]
      rfl
    | some f =>
      obtain ⟨hdeclared, hundeclared⟩ := sort_cons_of_some ms hfield
      rw [hfield] at hm
      rw [hdeclared, List.map_cons, List.nodup_cons] at distinct
      rw [hdeclared] at fresh
      obtain ⟨hfresh, hrest⟩ := List.forall_mem_cons.1 fresh
      have hseen : ∀ m' ∈ declared fields ms, m'.1 ∉ f.name :: seen := by
        intro m' hm' hmem
        rcases List.mem_cons.1 hmem with heq | hmem
        · have hname := List.mem_map_of_mem (f := (·.1)) hm'
          rw [heq] at hname
          exact distinct.1 hname
        · exact hrest m' hm' hmem
      rw [field?] at hfield
      simp only [hfield, if_neg hfresh, hm, ih hms distinct.2 hseen, hdeclared, hundeclared]
      rfl

theorem ofMembers_sorted {ms : List (String × Tree)} (hpasses : ∀ m ∈ ms, Passes fields other m)
    (distinct : ((declared fields ms).map (·.1)).Nodup) :
    ofMembers fields other (ms.map fun m => (some m.1, m.2)) true =
      .ok ⟨declared fields ms, undeclared fields ms, false⟩ := by
  rw [ofMembers, checkMembers_sorted hpasses distinct fun _ _ => List.not_mem_nil]
  rfl

/-- The order of an object's members changes nothing but the order in the record. -/
theorem exists_ofMembers_of_perm {ms ns : List (String × Tree)} (hperm : ms.Perm ns)
    (hpasses : ∀ m ∈ ns, Passes fields other m)
    (distinct : ((declared fields ns).map (·.1)).Nodup) :
    ∃ r, ofMembers fields other (ms.map fun m => (some m.1, m.2)) true = .ok r ∧
      r.known.Perm (declared fields ns) ∧ r.others.Perm (undeclared fields ns) := by
  have hdeclared : (declared fields ms).Perm (declared fields ns) := hperm.filterMap _
  have hmembers := ofMembers_sorted (fun m hm => hpasses m (hperm.mem_iff.1 hm))
    ((hdeclared.map (·.1)).nodup_iff.2 distinct)
  exact ⟨_, hmembers, hdeclared, hperm.filter _⟩

lemma declared_append (ms ns : List (String × Tree)) :
    declared fields (ms ++ ns) = declared fields ms ++ declared fields ns := List.filterMap_append

lemma undeclared_append (ms ns : List (String × Tree)) :
    undeclared fields (ms ++ ns) = undeclared fields ms ++ undeclared fields ns :=
  List.filter_append ..

lemma declared_of_declares {known : List (String × Tree)}
    (h : ∀ m ∈ known, Declares fields m) : declared fields known = known := by
  have hfield : ∀ m ∈ known, (field? fields m.1).map (fun f => (f.name, m.2)) = some m := by
    intro m hm
    obtain ⟨f, hfind, hname, -⟩ := h m hm
    rw [field?, hfind, Option.map_some, hname]
  rw [declared, List.filterMap_congr hfield, List.filterMap_some]

lemma undeclared_of_declares {known : List (String × Tree)}
    (h : ∀ m ∈ known, Declares fields m) : undeclared fields known = [] := by
  refine List.filter_eq_nil_iff.2 fun m hm => ?_
  obtain ⟨f, hfind, -, -⟩ := h m hm
  rw [field?, hfind]
  exact Bool.false_ne_true

lemma declared_eq_nil {others : List (String × Tree)}
    (h : ∀ m ∈ others, field? fields m.1 = none) : declared fields others = [] := by
  refine List.filterMap_eq_nil_iff.2 fun m hm => ?_
  rw [h m hm]
  rfl

lemma undeclared_eq_self {others : List (String × Tree)}
    (h : ∀ m ∈ others, field? fields m.1 = none) : undeclared fields others = others := by
  refine List.filter_eq_self.2 fun m hm => ?_
  rw [h m hm]
  rfl

theorem ofMembers_eq {known others : List (String × Tree)}
    (hknown : ∀ m ∈ known, Declares fields m) (distinct : (known.map (·.1)).Nodup)
    (hothers : ∀ m ∈ others, Admits fields other m) :
    ofMembers fields other ((known ++ others).map fun m => (some m.1, m.2)) true =
      .ok ⟨known, others, false⟩ := by
  have hnone : ∀ m ∈ others, field? fields m.1 = none := fun m hm => (hothers m hm).1
  have hdeclared : declared fields (known ++ others) = known := by
    rw [declared_append, declared_of_declares hknown, declared_eq_nil hnone, List.append_nil]
  have hundeclared : undeclared fields (known ++ others) = others := by
    rw [undeclared_append, undeclared_of_declares hknown, undeclared_eq_self hnone, List.nil_append]
  have hpasses : ∀ m ∈ known ++ others, Passes fields other m := by
    refine List.forall_mem_append.2 ⟨fun m hm => ?_, fun m hm => ?_⟩
    · obtain ⟨f, hfind, -, hcheck⟩ := hknown m hm
      rw [Passes, field?, hfind]
      exact hcheck
    · rw [Passes, hnone m hm]
      exact (hothers m hm).2
  rw [ofMembers_sorted hpasses (by rw [hdeclared]; exact distinct), hdeclared, hundeclared]

theorem ofMembers_known {known : List (String × Tree)} (hknown : ∀ m ∈ known, Declares fields m)
    (distinct : (known.map (·.1)).Nodup) :
    ofMembers fields other (known.map fun m => (some m.1, m.2)) true = .ok ⟨known, [], false⟩ := by
  have hothers : ∀ m ∈ ([] : List (String × Tree)), Admits fields other m := List.forall_mem_nil _
  have hmembers := ofMembers_eq hknown distinct hothers
  rw [List.append_nil] at hmembers
  exact hmembers

lemma checkMembers_cons {seen : List String} {key : Option String} {tree : Tree}
    {members : List (Option String × Tree)} {known others : List (String × Tree)}
    (h : checkMembers fields other seen ((key, tree) :: members) = .ok (known, others)) :
    ∃ name, key = some name ∧
      ((∃ f known', (fields.find? fun f => decide (f.Names name)) = some f ∧ f.name ∉ seen ∧
          f.check tree = .ok () ∧ known = (f.name, tree) :: known' ∧
          checkMembers fields other (f.name :: seen) members = .ok (known', others)) ∨
        ∃ others', (fields.find? fun f => decide (f.Names name)) = none ∧ other tree = .ok () ∧
          others = (name, tree) :: others' ∧
          checkMembers fields other seen members = .ok (known, others')) := by
  cases key with
  | none => cases h
  | some name =>
    refine ⟨name, rfl, ?_⟩
    rw [checkMembers] at h
    split at h
    · rename_i f hfind
      split at h
      · cases h
      · rename_i hfresh
        obtain ⟨_, hcheck, h⟩ := exists_of_bind_eq_ok h
        obtain ⟨⟨known', others'⟩, hrest, h⟩ := exists_of_bind_eq_ok h
        cases h
        exact .inl ⟨f, known', hfind, hfresh, hcheck, rfl, hrest⟩
    · rename_i hfind
      obtain ⟨_, hcheck, h⟩ := exists_of_bind_eq_ok h
      obtain ⟨⟨known', others'⟩, hrest, h⟩ := exists_of_bind_eq_ok h
      cases h
      exact .inr ⟨others', hfind, hcheck, rfl, hrest⟩

lemma others_of_checkMembers {seen : List String} {members : List (Option String × Tree)}
    {known others : List (String × Tree)}
    (h : checkMembers fields other seen members = .ok (known, others)) :
    ∀ m ∈ others,
      (fields.find? fun f => decide (f.Names m.1)) = none ∧ (some m.1, m.2) ∈ members := by
  induction members generalizing seen known others with
  | nil =>
    cases h
    exact List.forall_mem_nil _
  | cons member members ih =>
    obtain ⟨key', tree⟩ := member
    obtain ⟨name, rfl, ⟨f, known', -, -, -, -, hrest⟩ | ⟨others', hfind, -, rfl, hrest⟩⟩ :=
      checkMembers_cons h
    · intro m hm
      obtain ⟨hfind, hmem⟩ := ih hrest m hm
      exact ⟨hfind, List.mem_cons_of_mem _ hmem⟩
    · refine List.forall_mem_cons.2 ⟨⟨hfind, List.mem_cons_self ..⟩, fun m hm => ?_⟩
      obtain ⟨hfind', hmem⟩ := ih hrest m hm
      exact ⟨hfind', List.mem_cons_of_mem _ hmem⟩

theorem others_of_readOpen {depth : Nat} {tree : Tree} (hwithin : tree.Within (depth + 1))
    {r : Record} (h : readOpen fields tree = .ok r) :
    ∀ m ∈ r.others,
      (fields.find? fun f => decide (f.Names m.1)) = none ∧ m.2.Within depth := by
  cases hwithin with
  | object closed hmembers =>
    obtain ⟨⟨known, others⟩, hcheck, h⟩ := exists_of_bind_eq_ok h
    cases closed with
    | false => cases h
    | true =>
      cases h
      intro m hm
      obtain ⟨hfind, hmem⟩ := others_of_checkMembers hcheck m hm
      exact ⟨hfind, hmembers _ hmem⟩
  | _ => cases h

lemma lookup_others_of_checkMembers {key : String}
    (hkey : (fields.find? fun f => decide (f.Names key)) = none) {seen : List String}
    {members : List (Option String × Tree)} {known others : List (String × Tree)}
    (h : checkMembers fields other seen members = .ok (known, others)) :
    others.reverse.lookup key = members.reverse.lookup (some key) := by
  induction members generalizing seen known others with
  | nil =>
    cases h
    rfl
  | cons member members ih =>
    obtain ⟨key', tree⟩ := member
    obtain ⟨name, rfl, ⟨f, known', hfind, -, -, -, hrest⟩ | ⟨others', -, -, rfl, hrest⟩⟩ :=
      checkMembers_cons h
    · have hne : key ≠ name := by
        rintro rfl
        rw [hkey] at hfind
        cases hfind
      have hname : (some key == some name) = false := beq_false_of_ne (mt Option.some.inj hne)
      rw [List.reverse_cons, List.lookup_append, List.lookup_cons, ih hrest, hname]
      exact (Option.or_none ..).symm
    · rw [List.reverse_cons, List.reverse_cons, List.lookup_append, List.lookup_append, ih hrest]
      rfl

lemma lookup_others_of_readOpen {key : String}
    (hkey : (fields.find? fun f => decide (f.Names key)) = none) {tree : Tree} {r : Record}
    (h : readOpen fields tree = .ok r) : r.others.reverse.lookup key = tree.lastMember? key := by
  cases tree with
  | object members closed =>
    obtain ⟨⟨known, others⟩, hcheck, h⟩ := exists_of_bind_eq_ok h
    cases closed with
    | false => cases h
    | true =>
      cases h
      exact lookup_others_of_checkMembers hkey hcheck
  | _ => cases h

def present (ms : List (String × Option Tree)) : List (String × Tree) :=
  ms.filterMap fun m => m.2.map (m.1, ·)

lemma present_cons (m : String × Option Tree) (ms : List (String × Option Tree)) :
    present (m :: ms) = (m.2.map (m.1, ·)).toList ++ present ms := by
  rw [present, List.filterMap_cons]
  cases m.2 <;> rfl

lemma map_present (ms : List (String × Option Tree)) :
    ((present ms).map (·.1)).Sublist (ms.map (·.1)) := by
  induction ms with
  | nil => exact List.Sublist.refl _
  | cons m ms ih =>
    rw [present_cons, List.map_cons]
    cases m.2 with
    | none => exact ih.cons _
    | some tree => exact ih.cons_cons _

lemma forall_mem_present {P : String × Tree → Prop} {ms : List (String × Option Tree)}
    (h : ∀ m ∈ ms, ∀ tree, m.2 = some tree → P (m.1, tree)) : ∀ m ∈ present ms, P m := by
  intro m hm
  obtain ⟨⟨key, o⟩, hmem, ho⟩ := List.mem_filterMap.1 hm
  obtain ⟨tree, htree, rfl⟩ := Option.map_eq_some_iff.1 ho
  exact h _ hmem tree htree

lemma lookup_present {ms : List (String × Option Tree)} (hdistinct : (ms.map (·.1)).Nodup)
    {key : String} {o : Option Tree} (h : (key, o) ∈ ms) : (present ms).lookup key = o := by
  induction ms with
  | nil => exact absurd h List.not_mem_nil
  | cons m ms ih =>
    obtain ⟨hm, hms⟩ := List.nodup_cons.1 hdistinct
    have hmissing : ∀ k ∉ ms.map (·.1), (present ms).lookup k = none := by
      intro k hk
      refine List.lookup_eq_none_iff.2 fun e he => bne_iff_ne.2 ?_
      rintro rfl
      exact hk ((map_present ms).subset (List.mem_map_of_mem he))
    rw [present_cons]
    rcases List.mem_cons.1 h with rfl | h
    · cases o with
      | none => exact hmissing key hm
      | some tree => exact (NameMap.lookup_cons_eq ..).trans (if_pos rfl)
    · have hne : key ≠ m.1 := by
        rintro rfl
        exact hm (List.mem_map.2 ⟨_, h, rfl⟩)
      cases m.2 with
      | none => exact ih hms h
      | some tree => exact (NameMap.lookup_cons_eq ..).trans ((if_neg hne).trans (ih hms h))

lemma required_eq {α : Type} {r : Record} {name : String} {read : Reader α} {tree : Tree}
    {a : α} (hread : read tree = .ok a) (h : r.known.lookup name = some tree) :
    r.required name read = .ok a := by
  rw [required, h]
  exact hread

lemma optional_of_read {α : Type} {r : Record} {name : String} {read : Reader α}
    {tree : Tree} {a fallback : α} (hread : read tree = .ok a)
    (h : r.known.lookup name = some tree) : r.optional name read fallback = .ok a := by
  rw [optional, h]
  exact hread

lemma optional_eq {α : Type} {r : Record} {name : String} {read : Reader (Option α)}
    {write : α → Tree} {o : Option α} (hread : ∀ a, read (write a) = .ok (some a))
    (h : r.known.lookup name = o.map write) : r.optional name read none = .ok o := by
  rw [optional, h]
  cases o with
  | none => rfl
  | some a => exact hread a

end Record

namespace Reader

lemma parsed_text {α ε : Type} {parse : String → Except ε α} {cause : ε → FormatFault}
    {s : String} {a : α} (h : parse s = .ok a) : parsed parse cause (.text s) = .ok a := by
  rw [parsed]
  simp only [text, h]
  rfl

lemma text_text (s : String) : text (.text s) = .ok s := rfl

lemma bool_bool (b : Bool) : bool (.bool b) = .ok b := rfl

lemma word_natural (n : UInt64) : word (Value.natural n).tree = .ok n := rfl

lemma orNull_text (s : String) : orNull text (.text s) = .ok (some s) := rfl

lemma orNull_word (n : UInt64) : orNull word (.number (.natural n)) = .ok (some n) := rfl

lemma check_eq_ok {α : Type} {read : Reader α} {tree : Tree} {a : α} (h : read tree = .ok a) :
    read.check tree = .ok () := by
  rw [check, h]
  rfl

lemma value_eq_ok {t : Tree} {v : Value} (h : value t = .ok v) :
    t.value? = some v := by
  rw [value] at h
  split at h
  · rename_i v' hv'
    cases h
    exact hv'
  · cases h

lemma lookup_of_mapM_value {ms : List (String × Tree)} {vs : List (String × Value)}
    (h : ms.mapM (fun m => (value m.2).map (m.1, ·)) = .ok vs) (key : String) :
    vs.reverse.lookup key = (ms.reverse.lookup key).bind Tree.value? := by
  have hvalues : (ms.map fun m => (m.1, m.2.value?)) = vs.map fun v => (v.1, some v.2) := by
    induction ms generalizing vs with
    | nil =>
      cases h
      rfl
    | cons m ms ih =>
      rw [List.mapM_cons] at h
      obtain ⟨_, hread, h⟩ := exists_of_bind_eq_ok h
      obtain ⟨v, hv, rfl⟩ := exists_of_map_eq_ok hread
      obtain ⟨vs, hvs, h⟩ := exists_of_bind_eq_ok h
      cases h
      rw [List.map_cons, List.map_cons, ih hvs, value_eq_ok hv]
  have hlookup := congrArg (fun es => es.reverse.lookup key) hvalues
  simp only [← List.map_reverse, NameMap.lookup_map] at hlookup
  cases hms : ms.reverse.lookup key with
  | none =>
    rw [hms] at hlookup
    exact Option.map_eq_none_iff.1 hlookup.symm
  | some tree =>
    rw [hms] at hlookup
    obtain ⟨v, hv, htree⟩ := Option.map_eq_some_iff.1 hlookup.symm
    rw [hv]
    exact htree

lemma mapM_member {α : Type} {read : Reader α} {write : α → Value} {entries : List (String × α)}
    (h : ∀ e ∈ entries, read (write e.2).tree = .ok e.2) :
    (Value.memberTrees (entries.map fun e => (e.1, write e.2))).mapM (member read) =
      .ok entries := by
  induction entries with
  | nil => rfl
  | cons e entries ih =>
    obtain ⟨he, hentries⟩ := List.forall_mem_cons.1 h
    rw [List.map_cons, Value.memberTrees, List.mapM_cons, ih hentries, member, he]
    rfl

theorem nameMap_eq {α : Type} {read : Reader α} (write : α → Value) {m : NameMap α}
    (h : ∀ e ∈ m.entries, read (write e.2).tree = .ok e.2) :
    nameMap read (Value.object (m.entries.map fun e => (e.1, write e.2))).tree = .ok m := by
  rw [Value.tree, nameMap, mapM_member h]
  simp only [NameMap.ofList_entries, if_true]

end Reader
end SignedNames.Json
