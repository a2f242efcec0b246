import Mathlib
import SignedNames.Proofs.SignatureBlocks
import SignedNames.Proofs.Verification

/-!
# What may be changed in a signature

Of the two numbers that would do in the second place, only the one in the lower half of the group is
accepted, whoever checks the signature. The last byte has two forms for each parity, and which of
them is used makes no difference.
-/
namespace SignedNames

lemma Secp256k1.order_odd : order % 2 = 1 := by decide +kernel

namespace Ecdsa.Scalar

def neg (n : Scalar) : Scalar :=
  ⟨Secp256k1.order - n.value, Nat.sub_pos_of_lt n.lt, Nat.sub_lt (n.pos.trans n.lt) n.pos⟩

lemma value_neg (n : Scalar) : n.neg.value = Secp256k1.order - n.value := rfl

/-- The group order is odd, so one of a number and its negative is in the upper half. -/
lemma high_neg_iff (n : Scalar) :
    Secp256k1.order < 2 * n.neg.value ↔ ¬Secp256k1.order < 2 * n.value := by
  have hlt := n.lt
  have hodd := Secp256k1.order_odd
  rw [value_neg]
  omega

end Ecdsa.Scalar

namespace Signature

variable (s : Signature)

/-- The second number is more than half the group order. -/
def High : Prop := Secp256k1.order < 2 * s.second

def otherForm (v : UInt8) : UInt8 :=
  if v = 0 then 27 else if v = 27 then 0 else if v = 1 then 28 else if v = 28 then 1 else v

def otherParity (v : UInt8) : UInt8 :=
  if v = 0 then 1 else if v = 1 then 0 else if v = 27 then 28 else if v = 28 then 27 else v

/-- The same signature with the other form of the last byte. -/
def respelled : Signature := ofBlocks s.firstBlock s.secondBlock (otherForm s.recoveryByte)

/-- The signature with the second number negated and the other parity. -/
def twin : Signature :=
  ofBlocks s.firstBlock (BigEndian.block 32 (Secp256k1.order - s.second))
    (otherParity s.recoveryByte)

lemma oddOrdinate_respelled : s.respelled.oddOrdinate = s.oddOrdinate := by
  rw [oddOrdinate, oddOrdinate, respelled, recoveryByte_ofBlocks]
  generalize s.recoveryByte = v
  rw [otherForm]
  split_ifs <;> simp_all

theorem parts_respelled : s.respelled.parts = s.parts :=
  parts_congr (firstBlock_ofBlocks ..) (secondBlock_ofBlocks ..) s.oddOrdinate_respelled

theorem recover_respelled (digest : Block 32) : s.respelled.recover digest = s.recover digest := by
  rw [recover, recover, parts_respelled]

variable {s}

theorem recover_ne_account_of_high (h : s.High) (digest : Block 32) (address : Address) :
    s.recover digest ≠ .account address := by
  cases hparts : s.parts with
  | error fault =>
    rw [recover, hparts]
    rintro ⟨⟩
  | ok parts =>
    obtain ⟨pair, odd⟩ := parts
    have hhigh : pair.High := by
      rw [Ecdsa.Pair.High, second_of_parts hparts]
      rw [High] at h
      omega
    simp only [recover, hparts, Ecdsa.recover?_of_high hhigh]
    rintro ⟨⟩

lemma second_twin (s : Signature) : s.twin.second = Secp256k1.order - s.second := by
  rw [second, twin, secondBlock_ofBlocks]
  exact BigEndian.value_digits_of_lt ((Nat.sub_le ..).trans_lt Secp256k1.order_lt_range)

lemma oddOrdinate_twin {odd : Bool} (h : s.oddOrdinate = .ok odd) :
    s.twin.oddOrdinate = .ok !odd := by
  rw [oddOrdinate] at h
  rw [oddOrdinate, twin, recoveryByte_ofBlocks]
  generalize s.recoveryByte = v at h
  split_ifs at h with heven hodd
  · cases h
    rcases heven with rfl | rfl <;> rfl
  · cases h
    rcases hodd with rfl | rfl <;> rfl

theorem parts_twin {pair : Ecdsa.Pair} {odd : Bool} (h : s.parts = .ok (pair, odd)) :
    s.twin.parts = .ok (⟨pair.r, pair.s.neg⟩, !odd) := by
  obtain ⟨hodd, hscalars⟩ := parts_eq_ok_iff.1 h
  obtain ⟨hr, hs⟩ := scalars_eq_ok_iff.1 hscalars
  refine parts_eq_ok_iff.2 ⟨oddOrdinate_twin hodd, scalars_eq_ok_iff.2 ⟨?_, ?_⟩⟩
  · rw [twin, firstBlock_ofBlocks]
    exact hr
  · rw [Ecdsa.Scalar.value_neg, second_twin, hs]

lemma WellFormed.twin (h : s.WellFormed) : s.twin.WellFormed := by
  obtain ⟨⟨pair, odd⟩, hparts⟩ := s.exists_parts_iff.2 h
  exact s.twin.exists_parts_iff.1 ⟨_, parts_twin hparts⟩

theorem WellFormed.high_twin_iff (h : s.WellFormed) : s.twin.High ↔ ¬s.High := by
  obtain ⟨⟨pair, odd⟩, hparts⟩ := s.exists_parts_iff.2 h
  rw [High, High, ← second_of_parts hparts, ← second_of_parts (parts_twin hparts)]
  exact pair.s.high_neg_iff

end Signature

lemma Chain.call_respelled {c : Chain} {address : Address}
    (owned : ∀ w, c.wallets.get? address = some w → ∃ owner, w = .owned owner) (digest : Block 32)
    (s : Signature) : c.call address (Calldata.encode digest s.respelled.block.bytes) =
      c.call address (Calldata.encode digest s.block.bytes) := by
  have houtcome : c.outcome address (Calldata.encode digest s.respelled.block.bytes) =
      c.outcome address (Calldata.encode digest s.block.bytes) := by
    by_cases calls : address ∈ c.reverting
    · rw [outcome, outcome, if_pos calls, if_pos calls]
    · cases deployed : c.wallets.get? address with
      | none => simp only [outcome, if_neg calls, deployed]
      | some w =>
        obtain ⟨owner, rfl⟩ := owned w deployed
        rw [outcome_encode deployed calls, outcome_encode deployed calls, Wallet.check_owned,
          Wallet.check_owned, s.recover_respelled]
  rw [call, call, houtcome]

namespace Verifier

lemma Authentic.exists_account {c : Chain} {l : Link} (h : Authentic c l) :
    ∃ address, l.recovered = .account address := by
  obtain ⟨-, h⟩ | ⟨-, -, owner, -, h⟩ := h
  · exact ⟨_, h⟩
  · exact ⟨owner, h⟩

lemma Rules.checked {c : Chain} {l : Link} {report : Report} (rules : Rules c l (.ok report)) :
    l.body.schemaVersion = linkVersion ∧ l.signature.WellFormed ∧
      (l.body.chainId = c.chainId → c.reachable = true) := by
  cases rules with
  | foreign _ version form apart => exact ⟨version, form, fun own => absurd own apart⟩
  | account _ version form _ reachable => exact ⟨version, form, fun _ => reachable⟩
  | wallet _ version form _ reachable => exact ⟨version, form, fun _ => reachable⟩

lemma Rules.kind_eq {c : Chain} {l : Link} {report : Report} (rules : Rules c l (.ok report)) :
    report.kind = if l.body.chainId = c.chainId ∧ (c.wallets.get? l.body.signerAddress).isSome
      then .contractWallet else .account := by
  cases rules <;> simp [*]

/-- What changes to the signature of a link do to the outcome of checking it. -/
structure Unmalleable (c : Chain) (l : Link) : Prop where
  /-- A second number in the upper half is never accepted. -/
  high : l.signature.High →
    (∀ digest address, l.signature.recover digest ≠ .account address) ∧
      ∀ report, (verify c l).1 = .ok report → report.verdict ≠ .valid
  /-- The twin of a signature that is accepted is refused by whoever has accepted it. -/
  twin : ∀ report, (verify c l).1 = .ok report → report.verdict = .valid →
    ∃ report', (verify c { l with signature := l.signature.twin }).1 = .ok report' ∧
      report'.kind = report.kind ∧ report'.verdict ≠ .valid
  /-- The form of the last byte does not count. -/
  respelled : (∀ digest, l.signature.respelled.recover digest = l.signature.recover digest) ∧
    verify c { l with signature := l.signature.respelled } = verify c l

section

variable {c : Chain}
  (owned : ∀ address w, c.wallets.get? address = some w → ∃ owner, w = .owned owner)
include owned

lemma not_valid_of_high {l : Link} (h : l.signature.High) {report : Report}
    (hreport : (verify c l).1 = .ok report) : report.verdict ≠ .valid := by
  have rules := verify_rules c l
  rw [hreport] at rules
  rw [Ne, valid_iff_authentic (owned _) rules]
  intro hauthentic
  obtain ⟨address, haccount⟩ := hauthentic.exists_account
  exact Signature.recover_ne_account_of_high h _ address haccount

lemma not_valid_twin {l : Link} {report : Report} (hreport : (verify c l).1 = .ok report)
    (hvalid : report.verdict = .valid) :
    ∃ report', (verify c { l with signature := l.signature.twin }).1 = .ok report' ∧
      report'.kind = report.kind ∧ report'.verdict ≠ .valid := by
  have rules := verify_rules c l
  rw [hreport] at rules
  obtain ⟨version, form, reachable⟩ := rules.checked
  have hlow : ¬l.signature.High := fun h => not_valid_of_high owned h hreport hvalid
  obtain ⟨report', hreport'⟩ := exists_verify (c := c)
    (l := { l with signature := l.signature.twin }) version form.twin reachable
  have rules' := verify_rules c { l with signature := l.signature.twin }
  rw [hreport'] at rules'
  exact ⟨report', hreport', rules'.kind_eq.trans rules.kind_eq.symm,
    not_valid_of_high owned (form.high_twin_iff.2 hlow) hreport'⟩

lemma verify_respelled (l : Link) :
    verify c { l with signature := l.signature.respelled } = verify c l := by
  have hfault : l.signature.respelled.fault? = l.signature.fault? := by
    rw [Signature.fault?, Signature.fault?, Signature.parts_respelled]
  have hrecovered : ({ l with signature := l.signature.respelled } : Link).recovered =
      l.recovered := l.signature.recover_respelled _
  have hverdict : recoveryVerdict { l with signature := l.signature.respelled } =
      recoveryVerdict l := by
    rw [recoveryVerdict, hrecovered, recoveryVerdict]
  simp only [verify, foreignVerdict, hfault, hverdict,
    Chain.call_respelled (owned l.body.signerAddress)]

/-- On a chain whose wallets follow their owners, no signature with a second number in the upper half
is valid, so that one of a signature and its twin is refused, and the two forms of the last byte
cannot be told apart. This holds for accounts, for links of other chains and for wallets. -/
theorem unmalleable (l : Link) : Unmalleable c l where
  high h := ⟨Signature.recover_ne_account_of_high h, fun _ => not_valid_of_high owned h⟩
  twin _ := not_valid_twin owned
  respelled := ⟨l.signature.recover_respelled, verify_respelled owned l⟩

end

/-- A wallet accepts the sample, and so refuses its twin. -/
theorem signedLink_unmalleable :
    (∀ address w, walletChain.wallets.get? address = some w → ∃ owner, w = .owned owner) ∧
      Unmalleable walletChain signedLink ∧
      ∃ report report', (verify walletChain signedLink).1 = .ok report ∧
        report.verdict = .valid ∧ report.kind = .contractWallet ∧
        (verify walletChain { signedLink with signature := signedLink.signature.twin }).1 =
          .ok report' ∧ report'.kind = .contractWallet ∧ report'.verdict ≠ .valid := by
  have h := unmalleable walletChain_owned signedLink
  obtain ⟨report, hreport⟩ := exists_verify (c := walletChain) rfl signedLink_wellFormed
    fun _ => rfl
  have rules := verify_rules walletChain signedLink
  rw [hreport] at rules
  have hvalid : report.verdict = .valid := (valid_iff_authentic (walletChain_owned _) rules).2
    (.inr ⟨rfl, List.not_mem_nil, generatorAccount, deployed_walletChain, recovered_signedLink⟩)
  have hkind : report.kind = .contractWallet := by
    rw [rules.kind_eq, deployed_walletChain, Option.isSome_some]
    exact if_pos ⟨rfl, rfl⟩
  obtain ⟨report', hreport', hkind', hrefused⟩ := h.twin report hreport hvalid
  exact ⟨walletChain_owned, h, report, report', hreport, hvalid, hkind, hreport',
    hkind'.trans hkind, hrefused⟩

end Verifier
end SignedNames
