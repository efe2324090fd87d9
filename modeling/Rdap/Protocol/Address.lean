import Rdap.Protocol.Bech32m
import Rdap.Python.Value

/-! # RVN1 addresses: version byte and truncated key hash in Bech32m -/

set_option autoImplicit false

namespace Rdap.Protocol.Address
open Python

def addressVersion : UInt8 := 1

variable (P : Platform)

/-- The 20 bytes of a key's digest that its address carries. -/
def keyHash (identityEdPub : Bytes) : Bytes := (P.sha256 identityEdPub).take 20

def encode (identityEdPub : Bytes) : PyStr :=
  Bech32m.encode (lit "rvn") (addressVersion :: keyHash P identityEdPub)

theorem encode_ascii (identityEdPub : Bytes) : (encode P identityEdPub).all isAscii = true :=
  Bech32m.encode_ascii _ (by decide)

theorem encode_length (identityEdPub : Bytes) : (encode P identityEdPub).length < 50 := by
  have hpayload : (keyHash P identityEdPub).length ≤ 20 := by simp [keyHash]
  have hlen := Bech32m.encode_length (lit "rvn") (addressVersion :: keyHash P identityEdPub)
  have hhrp : (lit "rvn").length = 3 := by decide
  rw [List.length_cons, hhrp] at hlen
  unfold encode
  omega

theorem encode_ne_nil (identityEdPub : Bytes) : encode P identityEdPub ≠ [] := by
  simp [encode, Bech32m.encode, lit]

/-- The key hash and the version. -/
def decode (addr : PyStr) : Option (Bytes × UInt8) :=
  match Bech32m.decode (strip addr) with
  | some (hrp, version :: payload) =>
    if hrp ≠ lit "rvn" ∨ payload.length + 1 ≠ 21 then none else some (payload, version)
  | _ => none

end Rdap.Protocol.Address
