import SignedNames.Link

/-!
# Reference vectors

Links whose addresses and signatures are known. They pin down the derivation of keys, the canonical
bytes and the choice of the secret multiplier.
-/
namespace SignedNames.Reference

structure Vector where
  name : String
  secret : Nat
  chainId : UInt64
  linkName : String
  payloadCid : String
  signedAt : UInt64
  nonceByte : UInt8
  address : String
  signature : String

def vectors : List Vector := [
  { name := "avatar on chain 100"
    secret := 1
    chainId := 100
    linkName := "avatar"
    payloadCid := "Qm123"
    signedAt := 1700000000
    nonceByte := 0x11
    address := "0x7e5f4552091a69125d5dfcb7b8c2659029395bdf"
    signature := "0x85acdf5e557eb39ce1221ffbe6e5fdeb03e45ade270d0cd9d20efd2cf70d628f"
      ++ "0c271ca1010b697e2a4a71ad4b9075c6e534a2d74c6ec27859a258489276aecc1b" },
  { name := "mixed-case name on mainnet"
    secret := 2
    chainId := 1
    linkName := "Banner"
    payloadCid := "QmYwAPJzv5CZsnA625s3Xf2nemtYgPpHdWEz79ojWnPbdG"
    signedAt := 1700000001
    nonceByte := 0x22
    address := "0x2b5ad5c4795c026514f8317c7a215e218dccd6cf"
    signature := "0x2d1f398e46e67adec1a5387b9d0be0d25cc68341912abdbe1cadf4036806c784"
      ++ "67505ef5ca6946c1ec995cf5503b8be2bbdd1ec0ebdd32178b92805e82fef7b31c" },
  { name := "zero timestamp and nonce"
    secret := 3
    chainId := 100
    linkName := "x"
    payloadCid := "Qm0"
    signedAt := 0
    nonceByte := 0x00
    address := "0x6813eb9362372eef6200f3b1dbc3f819671cba69"
    signature := "0x02c9d178a10a28f02b92eb488970414220d341577c606f6a3e3b2d17e2e871b5"
      ++ "43405f6eaca898c757e6c872140b5b25bcb50fb71287697238f099b1d2123edc1c" }]

def Vector.link (v : Vector) : Except DataError Link :=
  let key? := Keypair.ofSeed? (BigEndian.block 32 v.secret)
  (LinkDraft.plain v.linkName v.payloadCid).sign key? none v.chainId v.signedAt
    ⟨Block.replicate 16 v.nonceByte⟩

def Vector.Matches (v : Vector) (l : Link) : Prop :=
  l.body.signerAddress.text = v.address ∧ l.recovered = .account l.body.signerAddress
    ∧ l.signature.text = v.signature

instance (v : Vector) (l : Link) : Decidable (v.Matches l) :=
  inferInstanceAs (Decidable (_ ∧ _ ∧ _))

end SignedNames.Reference
