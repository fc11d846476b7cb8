import ZeroTierNode.Buffer

/-! ZeroTier addresses, network ids and the identities behind them. -/

namespace ZeroTierNode
open Library.Bytes

/-- 40-bit node address; zero is the nil address. -/
abbrev Address := BitVec 40

instance Address.lawful : LawfulBEq Address := inferInstance

instance lawfulWord : LawfulBEq (BitVec 64) := inferInstance

namespace Address

/-- The conversion from a 64-bit integer keeps the low 40 bits. -/
def ofInt (a : BitVec 64) : Address := a.setWidth 40

def toInt (a : Address) : BitVec 64 := a.setWidth 64

def appendTo (a : Address) : List Byte := wordBytes 5 a

def readAt (b : List Byte) (i : Nat) : Option Address := Buffer.atWord 40 5 b i

end Address

/-- `Network::controllerFor`: the controller is named by the top 40 bits of the network id. -/
def controllerFor (nwid : BitVec 64) : Address := Address.ofInt (nwid >>> 24)

/-- `ZT_ECC_SIGNATURE_LEN` is 96 bytes. -/
abbrev signatureLen : Nat := 96

abbrev Signature := BitVec 768

/-- Public half of an identity: address and C25519/Ed25519 key pair. -/
structure Identity where
  address : Address
  publicKey : BitVec 512
deriving DecidableEq, Repr

namespace Identity

def nil : Identity := ⟨0, 0⟩

/-- `operator bool`. -/
def isSet (identity : Identity) : Bool := identity.address ≠ 0

end Identity

/-- The cryptographic primitives the node calls and this development does not open. -/
structure Crypto where
  /-- `ECC::verify` of a message and its signature under a public key. -/
  eccVerify : BitVec 512 → List Byte → Signature → Bool
  /-- `SHA384` of a byte string. -/
  sha384 : List Byte → BitVec 384

namespace Identity

def verify (crypto : Crypto) (identity : Identity) (data : List Byte) (signature : Signature) : Bool :=
  crypto.eccVerify identity.publicKey data signature

/-- `publicKeyHash`: the digest of address and public key. -/
def publicKeyHash (crypto : Crypto) (identity : Identity) : BitVec 384 :=
  crypto.sha384 (identity.address.appendTo ++ wordBytes 64 identity.publicKey)

end Identity

/-- What the credential code asks of the running node: its own identity and the peers of its
topology. -/
structure RuntimeEnvironment where
  identity : Identity
  peers : Address → Option Identity

namespace RuntimeEnvironment

def getIdentity (RR : RuntimeEnvironment) (address : Address) : Identity :=
  if address = RR.identity.address then RR.identity else (RR.peers address).getD .nil

def getPeerNoCache (RR : RuntimeEnvironment) (address : Address) : Option Identity := RR.peers address

end RuntimeEnvironment

/-- The three results of a credential's `verify`: 0, 1 and -1 in the source. -/
inductive Verdict
  | ok
  | waitingForWhois
  | bad
deriving DecidableEq, Repr

end ZeroTierNode
