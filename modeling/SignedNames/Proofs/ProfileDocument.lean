import Mathlib
import SignedNames.Profile
import SignedNames.Proofs.AddressText
import SignedNames.Proofs.IndexDocument
import SignedNames.Proofs.Json.Records

/-!
# Documents of profiles

A profile whose other members can be written is read back from its document with its keys in lower
case. Every profile that was read from a document without floating-point numbers has its keys in
lower case and members that can be written, and this stays so when heads are set and keys are
registered and revoked.
-/
namespace SignedNames
open Json

namespace SigningKey

def members (k : SigningKey) : List (String × Option Tree) := [
  ("publicKey", some (.text k.publicKey)),
  ("validFrom", some (.number (.natural k.validFrom))),
  ("validTo", k.validTo.map fun n => .number (.natural n)),
  ("revokedAt", k.revokedAt.map fun n => .number (.natural n))]

lemma tree_value (k : SigningKey) :
    k.value.tree = .object ((Record.present k.members).map fun m => (some m.1, m.2)) true := by
  obtain ⟨publicKey, validFrom, validTo, revokedAt⟩ := k
  rw [value, Value.tree, Value.memberTrees_eq]
  cases validTo <;> cases revokedAt <;> rfl

lemma members_declared (k : SigningKey) :
    ∀ m ∈ Record.present k.members, Record.Declares fields m := by
  have hword (n : UInt64) : (Reader.orNull Reader.word).check (.number (.natural n)) = .ok () :=
    Reader.check_eq_ok (Reader.orNull_word n)
  refine Record.forall_mem_present ?_
  simp only [members, List.forall_mem_cons]
  refine ⟨?_, ?_, ?_, ?_, List.forall_mem_nil _⟩ <;> intro tree htree
  · cases htree
    exact ⟨_, rfl, rfl, rfl⟩
  · cases htree
    exact ⟨_, rfl, rfl, rfl⟩
  · obtain ⟨n, -, rfl⟩ := Option.map_eq_some_iff.1 htree
    exact ⟨_, rfl, rfl, hword n⟩
  · obtain ⟨n, -, rfl⟩ := Option.map_eq_some_iff.1 htree
    exact ⟨_, rfl, rfl, hword n⟩

lemma members_distinct (k : SigningKey) : (k.members.map (·.1)).Nodup := by
  have hnames : ["publicKey", "validFrom", "validTo", "revokedAt"].Nodup := by decide
  exact hnames

lemma lookup_member {k : SigningKey} {key : String} {o : Option Tree} (h : (key, o) ∈ k.members) :
    (Record.present k.members).lookup key = o :=
  Record.lookup_present k.members_distinct h

theorem read_tree (k : SigningKey) : read k.value.tree = .ok k := by
  have hrecord : Record.read fields k.value.tree = .ok ⟨Record.present k.members, [], false⟩ := by
    have hdistinct := k.members_distinct.sublist (Record.map_present _)
    rw [tree_value, Record.read]
    exact Record.ofMembers_known k.members_declared hdistinct
  have hpublicKey := lookup_member (k := k) (.head _)
  have hvalidFrom := lookup_member (k := k) (.tail _ (.head _))
  have hvalidTo := lookup_member (k := k) (.tail _ (.tail _ (.head _)))
  have hrevokedAt := lookup_member (k := k) (.tail _ (.tail _ (.tail _ (.head _))))
  have hto := Record.optional_eq (r := ⟨Record.present k.members, [], false⟩) Reader.orNull_word
    hvalidTo
  have hat := Record.optional_eq (r := ⟨Record.present k.members, [], false⟩) Reader.orNull_word
    hrevokedAt
  simp only [read, hrecord, Record.required, hpublicKey, hvalidFrom, hto, hat, Reader.text,
    Reader.word, bind, Except.bind]
  rfl

end SigningKey

namespace Profile

def Undeclared (key : String) : Prop := (fields.find? fun f => decide (f.Names key)) = none

structure StorableMember (m : String × Value) : Prop where
  undeclared : Undeclared m.1
  within : m.2.Within (nestingLimit - 1)
  ordered : m.2.Ordered

structure Storable (p : Profile) : Prop where
  namespaces : ∀ e ∈ p.namespaces.entries, Text.lower e.1 = e.1
  signingKeys : ∀ e ∈ p.signingKeys.entries, Text.lower e.1 = e.1
  extra : ∀ m ∈ p.extra.entries, StorableMember m

structure Normal (p : Profile) : Prop where
  namespaces : ∀ e ∈ p.namespaces.entries, Text.lower e.1 = e.1
  signingKeys : ∀ e ∈ p.signingKeys.entries, Text.lower e.1 = e.1

def normalized (p : Profile) : Profile :=
  { p with
    namespaces := p.namespaces.mapKeys Text.lower
    signingKeys := p.signingKeys.mapKeys Text.lower }

lemma normalized_normal (p : Profile) : p.normalized.Normal :=
  ⟨NameMap.forall_mapKeys_lower _, NameMap.forall_mapKeys_lower _⟩

theorem normalized_eq_self_iff {p : Profile} : p.normalized = p ↔ p.Normal := by
  refine ⟨fun h => h ▸ p.normalized_normal, fun h => ?_⟩
  rw [normalized, NameMap.mapKeys_eq_self h.namespaces, NameMap.mapKeys_eq_self h.signingKeys]

def namespacesValue (p : Profile) : Value :=
  .object (p.namespaces.entries.map fun e => (e.1, .text e.2.text))

def signingKeysValue (p : Profile) : Value :=
  .object (p.signingKeys.entries.map fun e => (e.1, e.2.value))

def members (p : Profile) : List (String × Option Tree) := [
  ("name", p.name.map .text),
  ("description", p.description.map .text),
  ("image", p.image.map .text),
  ("namespaces", some p.namespacesValue.tree),
  ("signingKeys", some p.signingKeysValue.tree)]

def otherMembers (p : Profile) : List (String × Tree) :=
  p.extra.entries.map fun m => (m.1, m.2.tree)

lemma tree_value (p : Profile) :
    p.value.tree = .object
      ((Record.present p.members ++ p.otherMembers).map fun m => (some m.1, m.2)) true := by
  have hoptional (key : String) (o : Option String) :
      (optionalTextMember key o).map (fun m => (some m.1, m.2.tree)) =
        ((o.map Tree.text).map (key, ·)).toList.map fun m => (some m.1, m.2) := by
    cases o <;> rfl
  rw [value, Value.tree, Value.memberTrees_eq]
  simp only [members, otherMembers, Record.present_cons, List.map_append, List.append_assoc,
    hoptional, List.map_map]
  rfl

lemma read_namespaces (p : Profile) :
    Reader.nameMap Reader.cid p.namespacesValue.tree = .ok p.namespaces :=
  Reader.nameMap_eq (fun c => .text c.text) fun e _ => Reader.cid_text e.2

lemma read_signingKeys (p : Profile) :
    Reader.nameMap SigningKey.read p.signingKeysValue.tree = .ok p.signingKeys :=
  Reader.nameMap_eq SigningKey.value fun e _ => e.2.read_tree

lemma members_declared (p : Profile) :
    ∀ m ∈ Record.present p.members, Record.Declares fields m := by
  have htext (s : String) : (Reader.orNull Reader.text).check (.text s) = .ok () :=
    Reader.check_eq_ok (Reader.orNull_text s)
  refine Record.forall_mem_present ?_
  simp only [members, List.forall_mem_cons]
  refine ⟨?_, ?_, ?_, ?_, ?_, List.forall_mem_nil _⟩ <;> intro tree htree
  · obtain ⟨s, -, rfl⟩ := Option.map_eq_some_iff.1 htree
    exact ⟨_, rfl, rfl, htext s⟩
  · obtain ⟨s, -, rfl⟩ := Option.map_eq_some_iff.1 htree
    exact ⟨_, rfl, rfl, htext s⟩
  · obtain ⟨s, -, rfl⟩ := Option.map_eq_some_iff.1 htree
    exact ⟨_, rfl, rfl, htext s⟩
  · cases htree
    exact ⟨_, rfl, rfl, Reader.check_eq_ok p.read_namespaces⟩
  · cases htree
    exact ⟨_, rfl, rfl, Reader.check_eq_ok p.read_signingKeys⟩

lemma members_distinct (p : Profile) : (p.members.map (·.1)).Nodup := by
  have hnames : ["name", "description", "image", "namespaces", "signingKeys"].Nodup := by decide
  exact hnames

lemma lookup_member {p : Profile} {key : String} {o : Option Tree} (h : (key, o) ∈ p.members) :
    (Record.present p.members).lookup key = o :=
  Record.lookup_present p.members_distinct h

lemma otherMembers_admitted {p : Profile} (h : ∀ m ∈ p.extra.entries, StorableMember m) :
    ∀ m ∈ p.otherMembers, Record.Admits fields Reader.value.check m := by
  intro m hm
  obtain ⟨e, he, rfl⟩ := List.mem_map.1 hm
  have hread : Reader.value e.2.tree = .ok e.2 := by
    rw [Reader.value, (h e he).ordered.value?_tree]
  exact ⟨(h e he).undeclared, Reader.check_eq_ok hread⟩

lemma read_otherMembers {p : Profile} (h : ∀ m ∈ p.extra.entries, StorableMember m) :
    (p.otherMembers.mapM fun m => (Reader.value m.2).map (m.1, ·)) = .ok p.extra.entries := by
  have hordered : ∀ e ∈ p.extra.entries, e.2.Ordered := fun e he => (h e he).ordered
  rw [otherMembers]
  generalize p.extra.entries = entries at hordered
  induction entries with
  | nil => rfl
  | cons e entries ih =>
    obtain ⟨he, hentries⟩ := List.forall_mem_cons.1 hordered
    rw [List.map_cons, List.mapM_cons, ih hentries, Reader.value, he.value?_tree]
    rfl

theorem read_tree {p : Profile} (h : ∀ m ∈ p.extra.entries, StorableMember m) :
    read p.value.tree = .ok p.normalized := by
  obtain ⟨r, hr⟩ : ∃ r : Record, r = ⟨Record.present p.members, p.otherMembers, false⟩ := ⟨_, rfl⟩
  have hrecord : Record.readOpen fields p.value.tree = .ok r := by
    have hdistinct := p.members_distinct.sublist (Record.map_present _)
    rw [tree_value, Record.readOpen, hr]
    exact Record.ofMembers_eq p.members_declared hdistinct (otherMembers_admitted h)
  have hknown {key : String} {o : Option Tree} (hkey : (key, o) ∈ p.members) :
      r.known.lookup key = o := by
    rw [hr]
    exact lookup_member hkey
  have hothers : (r.others.mapM fun m => (Reader.value m.2).map (m.1, ·)) = .ok p.extra.entries := by
    rw [hr]
    exact read_otherMembers h
  have hname := Record.optional_eq Reader.orNull_text (hknown (.head _))
  have hdescription := Record.optional_eq Reader.orNull_text (hknown (.tail _ (.head _)))
  have himage := Record.optional_eq Reader.orNull_text (hknown (.tail _ (.tail _ (.head _))))
  have hnamespaces : r.optional "namespaces" (Reader.nameMap Reader.cid) .empty =
      .ok p.namespaces := by
    rw [Record.optional, hknown (.tail _ (.tail _ (.tail _ (.head _))))]
    exact p.read_namespaces
  have hsigningKeys : r.optional "signingKeys" (Reader.nameMap SigningKey.read) .empty =
      .ok p.signingKeys := by
    rw [Record.optional, hknown (.tail _ (.tail _ (.tail _ (.tail _ (.head _)))))]
    exact p.read_signingKeys
  simp only [read, hrecord, hname, hdescription, himage, hnamespaces, hsigningKeys, hothers,
    NameMap.ofList_entries, bind, Except.bind]
  rfl

lemma optionalTextMember_within (key : String) (o : Option String) (depth : Nat) :
    ∀ m ∈ optionalTextMember key o, m.2.Within depth := by
  cases o with
  | none => exact List.forall_mem_nil _
  | some s => exact List.forall_mem_singleton.2 (.text depth s)

lemma SigningKey.value_within (k : SigningKey) (depth : Nat) : k.value.Within (depth + 1) := by
  have hword (key : String) (o : Option UInt64) :
      ∀ m ∈ SigningKey.optionalWordMember key o, m.2.Within depth := by
    cases o with
    | none => exact List.forall_mem_nil _
    | some n => exact List.forall_mem_singleton.2 (.natural depth n)
  refine .object ?_
  simp only [List.forall_mem_append]
  refine ⟨⟨fun m hm => ?_, hword _ _⟩, hword _ _⟩
  rcases List.mem_pair.1 hm with rfl | rfl
  · exact .text ..
  · exact .natural ..

lemma value_within {p : Profile} (h : ∀ m ∈ p.extra.entries, StorableMember m) :
    p.value.Within nestingLimit := by
  refine .object ?_
  simp only [List.forall_mem_append]
  refine ⟨⟨⟨⟨optionalTextMember_within _ _ _, optionalTextMember_within _ _ _⟩,
    optionalTextMember_within _ _ _⟩, fun m hm => ?_⟩, fun m hm => (h m hm).within⟩
  rcases List.mem_pair.1 hm with rfl | rfl
  · refine .object fun e he => ?_
    obtain ⟨e, -, rfl⟩ := List.mem_map.1 he
    exact .text ..
  · refine .object fun e he => ?_
    obtain ⟨e, -, rfl⟩ := List.mem_map.1 he
    exact SigningKey.value_within ..

theorem parse_document_normalized {p : Profile} (h : ∀ m ∈ p.extra.entries, StorableMember m) :
    Profile.parse p.document = .ok p.normalized := by
  rw [Profile.parse, document, Json.parse, scan_render (value_within h)]
  simp only [read_tree h]
  rfl

theorem parse_document {p : Profile} (h : p.Storable) : Profile.parse p.document = .ok p := by
  rw [parse_document_normalized h.extra, normalized_eq_self_iff.2 ⟨h.namespaces, h.signingKeys⟩]

theorem storable_empty : empty.Storable :=
  ⟨List.forall_mem_nil _, List.forall_mem_nil _, List.forall_mem_nil _⟩

namespace Storable

variable {p : Profile}

theorem setHead (h : p.Storable) (namespaceName : String) (head : Cid) :
    (p.setHead namespaceName head).Storable :=
  ⟨NameMap.forall_entries_insert (P := fun key => Text.lower key = key) (Text.lower_lower _)
    h.namespaces, h.signingKeys, h.extra⟩

theorem putKey (h : p.Storable) (fingerprint : Address) (k : SigningKey) :
    (p.putKey fingerprint k).Storable :=
  ⟨h.namespaces, NameMap.forall_entries_insert (P := fun key => Text.lower key = key)
    fingerprint.lower_text h.signingKeys, h.extra⟩

theorem register (h : p.Storable) {k : SigningKey} {fingerprint : Address} {p' : Profile}
    (hp : p.register k = .ok (fingerprint, p')) : p'.Storable := by
  obtain ⟨fingerprint', -, heq⟩ := exists_of_map_eq_ok hp
  cases heq
  exact h.putKey ..

theorem revoke (h : p.Storable) {fingerprint : String} {time : UInt64} {p' : Profile}
    (hp : p.revoke? fingerprint time = some p') : p'.Storable := by
  obtain ⟨keys, hkeys, rfl⟩ := Option.map_eq_some_iff.1 hp
  obtain ⟨k, -, rfl⟩ := Option.map_eq_some_iff.1 hkeys
  exact ⟨h.namespaces, NameMap.forall_entries_insert (P := fun key => Text.lower key = key)
    (Text.lower_lower _) h.signingKeys, h.extra⟩

end Storable

/-- What a profile was read from: other members whose values are its own, and two maps whose keys were
brought to lower case. -/
lemma exists_of_parse {s : String} {p : Profile} (h : Profile.parse s = .ok p) :
    ∃ (r : Record) (extra : List (String × Value)) (namespaces : NameMap Cid)
      (signingKeys : NameMap SigningKey), Record.readOpen fields (scan s).1 = .ok r ∧
        (r.others.mapM fun m => (Reader.value m.2).map (m.1, ·)) = .ok extra ∧
        p.extra = .ofList extra ∧ p.namespaces = namespaces.mapKeys Text.lower ∧
        p.signingKeys = signingKeys.mapKeys Text.lower := by
  obtain ⟨r, hrecord, hread⟩ := exists_of_bind_eq_ok (read_of_parse (exists_of_mapError_eq_ok h))
  obtain ⟨name, -, hread⟩ := exists_of_bind_eq_ok hread
  obtain ⟨description, -, hread⟩ := exists_of_bind_eq_ok hread
  obtain ⟨image, -, hread⟩ := exists_of_bind_eq_ok hread
  obtain ⟨namespaces, -, hread⟩ := exists_of_bind_eq_ok hread
  obtain ⟨signingKeys, -, hread⟩ := exists_of_bind_eq_ok hread
  obtain ⟨extra, hextra, hread⟩ := exists_of_bind_eq_ok hread
  cases hread
  exact ⟨r, extra, namespaces, signingKeys, hrecord, hextra, rfl, rfl, rfl⟩

/-- A profile that was read can be written, if its other members hold no floating-point number. -/
theorem storable_of_parse {s : String} {p : Profile} (h : Profile.parse s = .ok p)
    (hfloat : ∀ m ∈ p.extra.entries, m.2.FloatFree) : p.Storable := by
  obtain ⟨r, extra, namespaces, signingKeys, hrecord, hextra, hp, hnamespaces, hsigningKeys⟩ :=
    exists_of_parse h
  refine ⟨?_, ?_, fun m hm => ?_⟩
  · rw [hnamespaces]
    exact NameMap.forall_mapKeys_lower _
  · rw [hsigningKeys]
    exact NameMap.forall_mapKeys_lower _
  · have hfree := hfloat m hm
    rw [hp] at hm
    obtain ⟨other, hother, hread⟩ := exists_of_mapM_eq_ok hextra m (NameMap.mem_of_mem_ofList hm)
    obtain ⟨v, hv, rfl⟩ := exists_of_map_eq_ok hread
    obtain ⟨hfind, hdepth⟩ := Record.others_of_readOpen (scan_within s) hrecord other hother
    obtain ⟨hwithin, hordered⟩ := hdepth.value (Reader.value_eq_ok hv) hfree
    exact ⟨hfind, hwithin, hordered⟩

/-- What a document says under a name that profiles do not declare is kept. -/
theorem extra_of_parse {s : String} {p : Profile} (h : Profile.parse s = .ok p) {key : String}
    (hkey : Undeclared key) :
    p.extra.get? key = ((scan s).1.lastMember? key).bind Tree.value? := by
  obtain ⟨r, extra, _, _, hrecord, hextra, hp, -, -⟩ := exists_of_parse h
  rw [hp, NameMap.get?_ofList, Reader.lookup_of_mapM_value hextra,
    Record.lookup_others_of_readOpen hkey hrecord]

end Profile
end SignedNames
