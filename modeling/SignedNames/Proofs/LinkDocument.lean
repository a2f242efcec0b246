import Mathlib
import SignedNames.Link.Document
import SignedNames.Proofs.AddressText
import SignedNames.Proofs.Json.Records
import SignedNames.Proofs.Json.ValueLocality

/-!
# Links in documents

A link is read back from its document. It is also read from any other object with the same members,
in whatever order they come, spelled in whatever way the reader takes, and with any members besides
that are no link's.
-/
namespace SignedNames

theorem Nonce.parse_of_spells {n : Nonce} {s : String} (h : Hex.Spells s n.block.bytes) :
    parse s = .ok n := by
  rw [parse, Hex.decode_of_spells h]
  simp

theorem Signature.parse_of_spellsMarked {σ : Signature} {s : String}
    (h : Hex.SpellsMarked s σ.block.bytes) : parse s = .ok σ := by
  rw [parse, Hex.decode_of_spellsMarked h]
  simp [ofBytes]

namespace Json

lemma whole_of_readable {t : Tree} (h : Scan.Readable t) : t.whole = true := by
  obtain ⟨v, hv⟩ := h
  cases t <;> simp_all [Tree.whole, Tree.value?]

lemma check_of_readable {t : Tree} (h : Scan.Readable t) :
    Reader.value.check t = .ok () ∧ Reader.ignored t = .ok () := by
  refine ⟨?_, by rw [Reader.ignored, if_pos (whole_of_readable h)]⟩
  obtain ⟨v, hv⟩ := h
  have hread : Reader.value t = .ok v := by rw [Reader.value, hv]
  exact Reader.check_eq_ok hread

end Json

namespace Link

def memberNames : List String :=
  ["schemaVersion", "name", "payloadCid", "cid", "encrypted", "encryptionAlgorithm",
    "encryptionKeyFingerprint", "chainId", "signerAddress", "signedAt", "nonce", "signature"]

def outerFields : List Json.Field := [.of "signature" Json.Reader.signature]

/-- In an object of its own the text is read as a member that is no link's. -/
def ForeignMember (piece : List Char) : Prop :=
  ∃ key v, key ∉ memberNames ∧
    Json.parse Json.Reader.value (Json.objectText [piece]) = .ok (.object [(key, v)])

/-- How the members of a link are written: by which name the payload goes, and the hexadecimal
texts. -/
structure Spelling (l : Link) where
  payloadKey : String
  signerAddress : String
  nonce : String
  signature : String
  payloadKey_mem : payloadKey ∈ ["payloadCid", "cid"]
  signerAddress_spells : Hex.SpellsMarked signerAddress l.body.signerAddress.block.bytes
  nonce_spells : Hex.Spells nonce l.body.nonce.block.bytes
  signature_spells : Hex.SpellsMarked signature l.signature.block.bytes

namespace Spelling
open Json

variable {l : Link}

def written (l : Link) : l.Spelling where
  payloadKey := "payloadCid"
  signerAddress := l.body.signerAddress.text
  nonce := l.body.nonce.text
  signature := l.signature.text
  payloadKey_mem := List.mem_cons_self ..
  signerAddress_spells := Hex.spellsMarked_encode _
  nonce_spells := Hex.spells_encode _
  signature_spells := Hex.spellsMarked_encode _

def bodyMembers (sp : l.Spelling) : List (String × Value) :=
  [("schemaVersion", Value.natural l.body.schemaVersion.toUInt64),
    ("name", .text l.body.name),
    (sp.payloadKey, .text l.body.payloadCid),
    ("encrypted", .bool l.body.encrypted)]
    ++ optionalTextMember "encryptionAlgorithm" l.body.encryptionAlgorithm
    ++ optionalTextMember "encryptionKeyFingerprint" l.body.encryptionKeyFingerprint
    ++ [("chainId", Value.natural l.body.chainId),
      ("signerAddress", .text sp.signerAddress),
      ("signedAt", Value.natural l.body.signedAt),
      ("nonce", .text sp.nonce)]

def members (sp : l.Spelling) : List (String × Value) :=
  sp.bodyMembers ++ [("signature", .text sp.signature)]

lemma document_eq (l : Link) : l.document = objectText ((written l).members.map memberText) :=
  render_object _

/-- The trees of the body's members under the names that they are declared with. -/
def declaredMembers (sp : l.Spelling) : List (String × Option Tree) :=
  [("schemaVersion", some (Value.natural l.body.schemaVersion.toUInt64).tree),
    ("name", some (.text l.body.name)),
    ("payloadCid", some (.text l.body.payloadCid)),
    ("encrypted", some (.bool l.body.encrypted)),
    ("encryptionAlgorithm", l.body.encryptionAlgorithm.map .text),
    ("encryptionKeyFingerprint", l.body.encryptionKeyFingerprint.map .text),
    ("chainId", some (Value.natural l.body.chainId).tree),
    ("signerAddress", some (.text sp.signerAddress)),
    ("signedAt", some (Value.natural l.body.signedAt).tree),
    ("nonce", some (.text sp.nonce))]

lemma declaredMembers_distinct (sp : l.Spelling) : (sp.declaredMembers.map (·.1)).Nodup := by
  have hnames : ["schemaVersion", "name", "payloadCid", "encrypted", "encryptionAlgorithm",
    "encryptionKeyFingerprint", "chainId", "signerAddress", "signedAt", "nonce"].Nodup := by decide
  exact hnames

def trees (ms : List (String × Value)) : List (String × Tree) := ms.map fun m => (m.1, m.2.tree)

/-- The first pass takes out the signature, the second one leaves nothing. -/
lemma sort_members (sp : l.Spelling) :
    Record.declared outerFields (trees sp.members) = [("signature", .text sp.signature)] ∧
      Record.undeclared outerFields (trees sp.members) = trees sp.bodyMembers ∧
      Record.declared LinkBody.fields (trees sp.bodyMembers) =
        Record.present sp.declaredMembers := by
  obtain ⟨payloadKey, _, _, _, hpayloadKey, -, -, -⟩ := sp
  obtain ⟨⟨_, _, _, _, algorithm, fingerprint, _, _, _, _⟩, _⟩ := l
  rcases List.mem_pair.1 hpayloadKey with rfl | rfl <;> cases algorithm <;> cases fingerprint <;>
    exact ⟨rfl, rfl, rfl⟩

lemma members_plain (sp : l.Spelling) :
    ∀ m ∈ sp.members, m.2.Within memberDepth ∧ m.2.Ordered := by
  have htext (s : String) : (Value.text s).Within memberDepth ∧ (Value.text s).Ordered :=
    ⟨.text .., .text ..⟩
  have hnatural (n : UInt64) : (Value.natural n).Within memberDepth ∧ (Value.natural n).Ordered :=
    ⟨.natural .., .number ..⟩
  have hbool (b : Bool) : (Value.bool b).Within memberDepth ∧ (Value.bool b).Ordered :=
    ⟨.bool .., .bool ..⟩
  have hoptional (key : String) (o : Option String) :
      ∀ m ∈ optionalTextMember key o, m.2.Within memberDepth ∧ m.2.Ordered := by
    cases o with
    | none => exact List.forall_mem_nil _
    | some s => exact List.forall_mem_singleton.2 (htext s)
  simp only [members, bodyMembers, List.forall_mem_append, List.forall_mem_cons]
  exact ⟨⟨⟨⟨⟨hnatural _, htext _, htext _, hbool _, List.forall_mem_nil _⟩, hoptional _ _⟩,
    hoptional _ _⟩, hnatural _, htext _, hnatural _, htext _, List.forall_mem_nil _⟩, htext _,
    List.forall_mem_nil _⟩

lemma field?_foreign {key : String} (h : key ∉ memberNames) :
    Record.field? outerFields key = none ∧ Record.field? LinkBody.fields key = none := by
  have hnames (fields : List Field)
      (hfields : ∀ f ∈ fields, f.name ∈ memberNames ∧ ∀ k ∈ f.synonym, k ∈ memberNames) :
      Record.field? fields key = none := by
    refine List.find?_eq_none.2 fun f hf hkey => h ?_
    obtain ⟨hname, hsynonym⟩ := hfields f hf
    rcases of_decide_eq_true hkey with rfl | hkey
    · exact hname
    · exact hsynonym key hkey
  exact ⟨hnames _ (by decide), hnames _ (by decide)⟩

lemma read_signerAddress (sp : l.Spelling) :
    Reader.address (.text sp.signerAddress) = .ok l.body.signerAddress :=
  Reader.parsed_text (Address.parse_of_spellsMarked sp.signerAddress_spells)

lemma read_nonce (sp : l.Spelling) : Reader.nonce (.text sp.nonce) = .ok l.body.nonce :=
  Reader.parsed_text (Nonce.parse_of_spells sp.nonce_spells)

lemma read_signature (sp : l.Spelling) : Reader.signature (.text sp.signature) = .ok l.signature :=
  Reader.parsed_text (Signature.parse_of_spellsMarked sp.signature_spells)

lemma read_schemaVersion (l : Link) :
    Reader.below 256 (Value.natural l.body.schemaVersion.toUInt64).tree =
      .ok l.body.schemaVersion.toNat := by
  have hlt := l.body.schemaVersion.toNat_lt
  change (if _ then _ else _) = _
  rw [if_pos (by simpa using hlt), UInt8.toNat_toUInt64]

lemma bodyMembers_pass (sp : l.Spelling) :
    ∀ m ∈ trees sp.bodyMembers, Record.Passes LinkBody.fields Reader.ignored m := by
  have hpayload : Record.Passes LinkBody.fields Reader.ignored
      (sp.payloadKey, .text l.body.payloadCid) := by
    rcases List.mem_pair.1 sp.payloadKey_mem with h | h <;> rw [h] <;> rfl
  have hoptional {key : String} (o : Option String)
      (hkey : ∀ s, Record.Passes LinkBody.fields Reader.ignored (key, .text s)) :
      ∀ m ∈ optionalTextMember key o,
        Record.Passes LinkBody.fields Reader.ignored (m.1, m.2.tree) := by
    cases o with
    | none => exact List.forall_mem_nil _
    | some s => exact List.forall_mem_singleton.2 (hkey s)
  simp only [trees, List.forall_mem_map, bodyMembers, List.forall_mem_append, List.forall_mem_cons]
  refine ⟨⟨⟨⟨?_, ?_, hpayload, ?_, List.forall_mem_nil _⟩, hoptional _ fun s => ?_⟩,
    hoptional _ fun s => ?_⟩, ?_, ?_, ?_, ?_, List.forall_mem_nil _⟩
  · exact Reader.check_eq_ok (read_schemaVersion l)
  · exact Reader.check_eq_ok (Reader.text_text l.body.name)
  · exact Reader.check_eq_ok (Reader.bool_bool l.body.encrypted)
  · exact Reader.check_eq_ok (Reader.orNull_text s)
  · exact Reader.check_eq_ok (Reader.orNull_text s)
  · exact Reader.check_eq_ok (Reader.word_natural l.body.chainId)
  · exact Reader.check_eq_ok sp.read_signerAddress
  · exact Reader.check_eq_ok (Reader.word_natural l.body.signedAt)
  · exact Reader.check_eq_ok sp.read_nonce

lemma ofRecord_eq (sp : l.Spelling) {r : Record}
    (h : ∀ key o, (key, o) ∈ sp.declaredMembers → r.known.lookup key = o) :
    LinkBody.ofRecord r = .ok l.body := by
  have hmember (i : Fin 10) : r.known.lookup (sp.declaredMembers.get i).1 =
      (sp.declaredMembers.get i).2 := h _ _ (List.get_mem ..)
  have hschemaVersion : r.optional "schemaVersion" (Reader.below 256) linkVersion.toNat =
      .ok l.body.schemaVersion.toNat :=
    Record.optional_of_read (read_schemaVersion l) (hmember 0)
  have hname : r.required "name" Reader.text = .ok l.body.name :=
    Record.required_eq (Reader.text_text _) (hmember 1)
  have hpayloadCid : r.required "payloadCid" Reader.text = .ok l.body.payloadCid :=
    Record.required_eq (Reader.text_text _) (hmember 2)
  have hencrypted : r.optional "encrypted" Reader.bool false = .ok l.body.encrypted :=
    Record.optional_of_read (Reader.bool_bool _) (hmember 3)
  have halgorithm : r.optional "encryptionAlgorithm" (Reader.orNull Reader.text) none =
      .ok l.body.encryptionAlgorithm :=
    Record.optional_eq Reader.orNull_text (hmember 4)
  have hfingerprint : r.optional "encryptionKeyFingerprint" (Reader.orNull Reader.text) none =
      .ok l.body.encryptionKeyFingerprint :=
    Record.optional_eq Reader.orNull_text (hmember 5)
  have hchainId : r.required "chainId" Reader.word = .ok l.body.chainId :=
    Record.required_eq (Reader.word_natural _) (hmember 6)
  have hsignerAddress : r.required "signerAddress" Reader.address = .ok l.body.signerAddress :=
    Record.required_eq sp.read_signerAddress (hmember 7)
  have hsignedAt : r.required "signedAt" Reader.word = .ok l.body.signedAt :=
    Record.required_eq (Reader.word_natural _) (hmember 8)
  have hnonce : r.required "nonce" Reader.nonce = .ok l.body.nonce :=
    Record.required_eq sp.read_nonce (hmember 9)
  rw [LinkBody.ofRecord, hschemaVersion, hname, hpayloadCid, hencrypted, halgorithm, hfingerprint,
    hchainId, hsignerAddress, hsignedAt, hnonce]
  change Except.ok (LinkBody.mk (UInt8.ofNat l.body.schemaVersion.toNat) ..) = _
  rw [UInt8.ofNat_toNat]

end Spelling

open Json Spelling

variable {l : Link}

lemma members_pass (sp : l.Spelling) :
    ∀ m ∈ trees sp.members, Record.Passes outerFields Reader.value.check m := by
  rw [trees, members, List.map_append]
  refine List.forall_mem_append.2 ⟨fun m hm => ?_, List.forall_mem_singleton.2 ?_⟩
  · have hundeclared : m ∈ Record.undeclared outerFields (trees sp.members) := by
      rw [sp.sort_members.2.1]
      exact hm
    obtain ⟨hmem, hfield⟩ := List.mem_filter.1 hundeclared
    obtain ⟨e, he, rfl⟩ := List.mem_map.1 hmem
    exact Record.passes_of_none (Option.isNone_iff_eq_none.1 hfield)
      (check_of_readable ⟨_, (sp.members_plain e he).2.value?_tree⟩).1
  · exact Reader.check_eq_ok sp.read_signature

lemma outer_pass (sp : l.Spelling) {ms others : List (String × Tree)}
    (hperm : ms.Perm (trees sp.members ++ others))
    (hothers : ∀ m ∈ others, m.1 ∉ memberNames ∧ Scan.Readable m.2) :
    ∃ r, Record.ofMembers outerFields Reader.value.check (ms.map fun m => (some m.1, m.2)) true =
        .ok r ∧
      r.required "signature" Reader.signature = .ok l.signature ∧
      r.others.Perm (trees sp.bodyMembers ++ others) := by
  have hnone : ∀ m ∈ others, Record.field? outerFields m.1 = none := fun m hm =>
    (field?_foreign (hothers m hm).1).1
  obtain ⟨hsignature, hbody, -⟩ := sp.sort_members
  have hdeclared : Record.declared outerFields (trees sp.members ++ others) =
      [("signature", .text sp.signature)] := by
    rw [Record.declared_append, hsignature, Record.declared_eq_nil hnone]
    rfl
  have hundeclared : Record.undeclared outerFields (trees sp.members ++ others) =
      trees sp.bodyMembers ++ others := by
    rw [Record.undeclared_append, hbody, Record.undeclared_eq_self hnone]
  have hpasses : ∀ m ∈ trees sp.members ++ others,
      Record.Passes outerFields Reader.value.check m :=
    List.forall_mem_append.2 ⟨members_pass sp, fun m hm =>
      Record.passes_of_none (hnone m hm) (check_of_readable (hothers m hm).2).1⟩
  obtain ⟨r, hr, hknown, hrest⟩ := Record.exists_ofMembers_of_perm hperm hpasses
    (by rw [hdeclared]; exact List.nodup_singleton _)
  rw [hdeclared, List.perm_singleton] at hknown
  rw [hundeclared] at hrest
  have hlookup : r.known.lookup "signature" = some (.text sp.signature) := by
    rw [hknown]
    rfl
  exact ⟨r, hr, Record.required_eq sp.read_signature hlookup, hrest⟩

lemma inner_pass (sp : l.Spelling) {ms others : List (String × Tree)}
    (hperm : ms.Perm (trees sp.bodyMembers ++ others))
    (hothers : ∀ m ∈ others, m.1 ∉ memberNames ∧ Scan.Readable m.2) :
    ∃ r, Record.ofMembers LinkBody.fields Reader.ignored (ms.map fun m => (some m.1, m.2)) true =
        .ok r ∧ LinkBody.ofRecord r = .ok l.body := by
  have hnone : ∀ m ∈ others, Record.field? LinkBody.fields m.1 = none := fun m hm =>
    (field?_foreign (hothers m hm).1).2
  have hdeclared : Record.declared LinkBody.fields (trees sp.bodyMembers ++ others) =
      Record.present sp.declaredMembers := by
    rw [Record.declared_append, sp.sort_members.2.2, Record.declared_eq_nil hnone, List.append_nil]
  have hpasses : ∀ m ∈ trees sp.bodyMembers ++ others,
      Record.Passes LinkBody.fields Reader.ignored m :=
    List.forall_mem_append.2 ⟨sp.bodyMembers_pass, fun m hm =>
      Record.passes_of_none (hnone m hm) (check_of_readable (hothers m hm).2).2⟩
  have hdistinct := sp.declaredMembers_distinct.sublist (Record.map_present _)
  obtain ⟨r, hr, hknown, -⟩ := Record.exists_ofMembers_of_perm hperm hpasses
    (by rw [hdeclared]; exact hdistinct)
  rw [hdeclared] at hknown
  refine ⟨r, hr, sp.ofRecord_eq fun key o hmem => ?_⟩
  rw [NameMap.lookup_eq_of_perm hknown ((hknown.map (·.1)).nodup_iff.2 hdistinct)]
  exact Record.lookup_present sp.declaredMembers_distinct hmem

/-- The members of a link may come in any order, with others in between. -/
theorem read_of_perm (sp : l.Spelling) {ms others : List (String × Tree)}
    (hperm : ms.Perm (trees sp.members ++ others))
    (hothers : ∀ m ∈ others, m.1 ∉ memberNames ∧ Scan.Readable m.2) :
    read (.object (ms.map fun m => (some m.1, m.2)) true) = .ok l := by
  obtain ⟨r, hr, hsigned, hrest⟩ := outer_pass sp hperm hothers
  obtain ⟨b, hb, hbody⟩ := inner_pass sp hrest hothers
  have hopen : Record.readOpen [.of "signature" Reader.signature]
      (.object (ms.map fun m => (some m.1, m.2)) true) = .ok r := hr
  have hrestRead : r.rest LinkBody.fields = .ok b := hb
  simp only [read, hopen, bind, Except.bind, hsigned, hrestRead, hbody]
  rfl

/-- The text is read as these members wherever it stands in an object. -/
def Reads (piece : List Char) (ms : List (String × Tree)) : Prop :=
  Scan.ReadsMembers memberDepth piece (ms.map fun m => (some m.1, m.2))

/-- Whatever can be written is a member for others under a name that is no link's. -/
lemma foreignMember_memberText {m : String × Value} (hname : m.1 ∉ memberNames)
    (hwithin : m.2.Within memberDepth) (hordered : m.2.Ordered) : ForeignMember (memberText m) := by
  have hscan := scan_render (Value.Within.object (List.forall_mem_singleton.2 hwithin))
  have hvalue := (Value.Ordered.object (List.pairwise_singleton _ m)
    (List.forall_mem_singleton.2 hordered)).value?_tree
  rw [render_object] at hscan
  refine ⟨m.1, m.2, hname, parse_of_scan hscan ?_⟩
  rw [Reader.value, hvalue]

lemma ForeignMember.reads {piece : List Char} (h : ForeignMember piece) :
    ∃ ms, Reads piece ms ∧ ∀ m ∈ ms, m.1 ∉ memberNames ∧ Scan.Readable m.2 := by
  obtain ⟨key, v, hkey, hparse⟩ := h
  obtain ⟨t, hscan, hread⟩ := scan_of_parse hparse
  have hvalue := Reader.value_eq_ok hread
  cases t with
  | object found closed =>
    cases closed with
    | false => cases hvalue
    | true =>
      obtain ⟨vs, hvs, hobject⟩ := Option.map_eq_some_iff.1 hvalue
      obtain ⟨ms, rfl, hkeys, hms⟩ := Scan.exists_readable_of_memberValues? hvs
      have hentries : (NameMap.ofList vs).entries = [(key, v)] := Value.object.inj hobject
      have hmem (k : String) : k ∈ ms.map (·.1) ↔ k = key := by
        rw [hkeys, ← NameMap.mem_keys_ofList, NameMap.keys, hentries]
        exact List.mem_singleton
      have hne : ms ≠ [] := by
        rintro rfl
        exact absurd ((hmem key).2 rfl) List.not_mem_nil
      refine ⟨ms, readsMembers_of_scan (by simpa using hne) ⟨_, hvalue⟩ hscan, fun m hm => ?_⟩
      have hm' := (hmem m.1).1 (List.mem_map_of_mem hm)
      exact ⟨hm' ▸ hkey, hms m hm⟩
  | array items closed => simp [Tree.value?] at hvalue
  | _ => cases hvalue

lemma exists_reads_foreign {foreign : List (List Char)}
    (h : ∀ piece ∈ foreign, ForeignMember piece) :
    ∃ found, List.Forall₂ Reads foreign found ∧
      ∀ m ∈ found.flatten, m.1 ∉ memberNames ∧ Scan.Readable m.2 := by
  induction foreign with
  | nil => exact ⟨[], .nil, List.forall_mem_nil _⟩
  | cons piece foreign ih =>
    obtain ⟨hpiece, hforeign⟩ := List.forall_mem_cons.1 h
    obtain ⟨ms, hreads, hms⟩ := hpiece.reads
    obtain ⟨found, hfound, hothers⟩ := ih hforeign
    refine ⟨ms :: found, .cons hreads hfound, ?_⟩
    rw [List.flatten_cons]
    exact List.forall_mem_append.2 ⟨hms, hothers⟩

lemma reads_members (sp : l.Spelling) :
    List.Forall₂ Reads (sp.members.map memberText) (sp.members.map fun m => [(m.1, m.2.tree)]) := by
  rw [List.forall₂_map_left_iff, List.forall₂_map_right_iff, List.forall₂_same]
  intro m hm
  obtain ⟨hwithin, hordered⟩ := sp.members_plain m hm
  exact readsMembers_memberText hwithin hordered

theorem parse_objectText (sp : l.Spelling) {foreign pieces : List (List Char)}
    (hforeign : ∀ piece ∈ foreign, ForeignMember piece)
    (hperm : pieces.Perm (sp.members.map memberText ++ foreign)) :
    parse (objectText pieces) = .ok l := by
  obtain ⟨others, hothers, hall⟩ := exists_reads_foreign hforeign
  obtain ⟨found, hfound, hfoundPerm⟩ :=
    List.perm_comp_forall₂ hperm (List.rel_append (reads_members sp) hothers)
  have hms : found.flatten.Perm (trees sp.members ++ others.flatten) := by
    have htrees : (sp.members.map fun m => [(m.1, m.2.tree)]).flatten = trees sp.members := by
      rw [← List.flatMap_def, ← List.map_eq_flatMap, trees]
    have hflatten := hfoundPerm.flatten
    rw [List.flatten_append, htrees] at hflatten
    exact hflatten
  have hne : (found.map (List.map fun m : String × Tree => (some m.1, m.2))).flatten ≠ [] := by
    rw [← List.map_flatten]
    intro hnil
    have hnone := List.map_eq_nil_iff.1 hnil
    rw [hnone, List.nil_perm] at hms
    cases hms
  have hscan := scan_objectText hne (List.forall₂_map_right_iff.2 hfound)
  rw [← List.map_flatten] at hscan
  have hread := parse_of_scan hscan (read_of_perm sp hms hall)
  rw [parse, hread]
  rfl

/-- A document is read as its link. So is every object with the same members in any order, the
payload by either name, digits and marks in any letter case and marks left out, and with members in
between that are no link's. All of them have one signing digest. -/
theorem read_in_any_form (l : Link) :
    l.document = objectText ((written l).members.map memberText) ∧ parse l.document = .ok l ∧
      ∀ (sp : l.Spelling) (foreign pieces : List (List Char)),
        (∀ piece ∈ foreign, ForeignMember piece) →
        pieces.Perm (sp.members.map memberText ++ foreign) →
        parse (objectText pieces) = parse l.document ∧
          (parse (objectText pieces)).map (fun found => found.body.signingDigest) =
            .ok l.body.signingDigest := by
  have hdocument : parse l.document = .ok l := by
    rw [document_eq]
    exact parse_objectText (written l) (List.forall_mem_nil _) (by rw [List.append_nil])
  refine ⟨document_eq l, hdocument, fun sp foreign pieces hforeign hperm => ?_⟩
  have hparse := parse_objectText sp hforeign hperm
  rw [hparse]
  exact ⟨hdocument.symm, rfl⟩

def encryptedLink : Link :=
  ⟨⟨1, "Größe\n", "Qm1", true, some "age", none, 100, ⟨.replicate 20 0xab⟩, 0,
    ⟨.replicate 16 0x0c⟩⟩, ⟨.replicate 65 0xef⟩⟩

/-- The other name of the payload, capital digits, a capital mark and none. -/
def capitalSpelling : encryptedLink.Spelling where
  payloadKey := "cid"
  signerAddress := "0X" ++ String.ofList (List.replicate 20 ['a', 'B']).flatten
  nonce := String.ofList (List.replicate 16 ['0', 'C']).flatten
  signature := String.ofList (List.replicate 65 ['E', 'F']).flatten
  payloadKey_mem := by decide
  signerAddress_spells := ⟨"0X", by decide, _, by decide +kernel, rfl⟩
  nonce_spells := by decide +kernel
  signature_spells := Hex.Spells.spellsMarked (by decide +kernel)

/-- A member that is no link's, with one inside that would be. -/
def nestedMember : String × Value := ("theme", .array [.object [("cid", .null)]])

lemma nestedMember_foreign : ForeignMember (memberText nestedMember) := by
  have hwithin : nestedMember.2.Within memberDepth :=
    .array (List.forall_mem_singleton.2 (.object (List.forall_mem_singleton.2 (.null _))))
  have hordered : nestedMember.2.Ordered :=
    .array (List.forall_mem_singleton.2
      (.object (List.pairwise_singleton ..) (List.forall_mem_singleton.2 .null)))
  exact foreignMember_memberText (by decide) hwithin hordered

def capitalPieces : List (List Char) :=
  memberText nestedMember :: (capitalSpelling.members.map memberText).reverse

theorem capitalPieces_read :
    parse (objectText capitalPieces) = parse encryptedLink.document ∧
      (parse (objectText capitalPieces)).map (fun found => found.body.signingDigest) =
        .ok encryptedLink.body.signingDigest := by
  have hperm (piece : List Char) (pieces : List (List Char)) :
      (piece :: pieces.reverse).Perm (pieces ++ [piece]) :=
    ((List.reverse_perm pieces).cons piece).trans (List.perm_append_singleton piece pieces).symm
  obtain ⟨-, -, hforms⟩ := read_in_any_form encryptedLink
  exact hforms capitalSpelling [memberText nestedMember] capitalPieces
    (List.forall_mem_singleton.2 nestedMember_foreign) (hperm _ _)

end Link
end SignedNames
