import Mathlib.Algebra.Order.Ring.Nat

/-!
# Digests

32-byte digests and the hash functions built on SHA-256 (`types/hash.rs`). SHA-256,
Ed25519 and Argon2id are primitives of other crates: they are parameters of the model,
carried by `Crypto`, of which nothing is assumed.
-/

namespace Exfer.Impl

/-- `Hash256`: a 32-byte digest. -/
abbrev Hash256 := Vector UInt8 32

instance neZero_hashSize : NeZero 32 := ⟨by decide⟩

instance : LawfulBEq Hash256 := inferInstance

/-- The cryptographic primitives the program takes from other crates. -/
class Crypto where
  /-- SHA-256 of a byte string. -/
  sha256 : List UInt8 → Hash256
  /-- Whether `VerifyingKey::from_bytes` accepts a public key. -/
  ed25519Key : Vector UInt8 32 → Bool
  /-- Whether `VerifyingKey::verify` accepts a signature on a message. -/
  ed25519Verify : Vector UInt8 32 → List UInt8 → Vector UInt8 64 → Bool
  /-- `is_small_order` of the point a key decompresses to, if it does. -/
  edwardsSmallOrder : Vector UInt8 32 → Option Bool
  /-- Argon2id of a password and a salt at the chain's parameters; `none` on an error. -/
  argon2id : Hash256 → Hash256 → Option Hash256

/-- Primitives for concrete runs: the given hash function, every well-formed signature
accepted and a proof of work of zero. -/
@[reducible] def Crypto.ofHash (sha256 : List UInt8 → Hash256) : Crypto where
  sha256 := sha256
  ed25519Key _ := true
  ed25519Verify _ _ _ := true
  edwardsSmallOrder _ := some false
  argon2id _ _ := some (Vector.replicate 32 0)

/-- Read 32 bytes as a digest, zero-padded if fewer remain. -/
def hashOfBytes (data : List UInt8) : Hash256 :=
  Vector.ofFn fun i : Fin 32 => data.getD i 0

/-- `is_weak_ed25519_key`: a key that does not decompress counts as weak. -/
def isWeakEd25519Key [Crypto] (pubkey : Vector UInt8 32) : Bool :=
  match Crypto.edwardsSmallOrder pubkey with
  | some small => small
  | none => true

namespace Hash256

def zero : Hash256 := Vector.replicate 32 0

/-- `Hash256::domain_hash`: SHA-256 of the separator's length, the separator and the data. -/
def domainHash [Crypto] (separator data : List UInt8) : Hash256 :=
  Crypto.sha256 (UInt8.ofNat separator.length :: (separator ++ data))

/-- The hexadecimal form of a digest, which is its `Display` form. -/
def hex (h : Hash256) : String :=
  String.ofList (h.toList.flatMap fun b => [Nat.digitChar (b.toNat / 16), Nat.digitChar (b.toNat % 16)])

/-- The `Debug` form of a digest. -/
def debug (h : Hash256) : String :=
  "Hash256(" ++ h.hex ++ ")"

end Hash256

/-- The `Debug` form of a list of items in their own `Debug` form. -/
def debugList (items : List String) : String :=
  "[" ++ String.intercalate ", " items ++ "]"

end Exfer.Impl
