import Rdap.Python.Value

/-! # HMAC-SHA256 and the key derivation over it -/

set_option autoImplicit false

namespace Rdap.Protocol
open Python

variable (P : Platform)

def hmacBlock : Nat := 64

/-- The key, hashed if it is longer than a block, and padded to one. -/
def hmacKey (key : Bytes) : Bytes :=
  let short := if key.length > hmacBlock then P.sha256 key else key
  short ++ List.replicate (hmacBlock - short.length) 0

/-- `hmac.new(key, msg, hashlib.sha256).digest()` -/
def hmacSha256 (key msg : Bytes) : Bytes :=
  let block := hmacKey P key
  P.sha256 (block.map (· ^^^ 0x5c) ++ P.sha256 (block.map (· ^^^ 0x36) ++ msg))

theorem hmacSha256_length (key msg : Bytes) : (hmacSha256 P key msg).length = 32 :=
  P.sha256_length _

/-- The blocks of output that are still to come. -/
def hkdfExpand (prk info : Bytes) : Nat → UInt8 → Bytes → Bytes
  | 0, _, _ => []
  | blocks + 1, counter, t =>
    let t := hmacSha256 P prk (t ++ info ++ [counter])
    t ++ hkdfExpand prk info blocks (counter + 1) t

/-- `hkdf_sha256` for a length the one-byte counter can number. -/
def hkdfSha256 (ikm salt info : Bytes) (length : Nat) : Bytes :=
  let salt := if salt = [] then List.replicate 32 0 else salt
  (hkdfExpand P (hmacSha256 P salt ikm) info ((length + 31) / 32) 1 []).take length

theorem hkdfExpand_length (prk info : Bytes) (blocks : Nat) (counter : UInt8) (t : Bytes) :
    (hkdfExpand P prk info blocks counter t).length = 32 * blocks := by
  induction blocks generalizing counter t with
  | zero => rfl
  | succ blocks ih =>
    unfold hkdfExpand
    rw [List.length_append, ih, hmacSha256_length]
    omega

theorem hkdfSha256_length (ikm salt info : Bytes) (length : Nat) :
    (hkdfSha256 P ikm salt info length).length = length := by
  unfold hkdfSha256
  rw [List.length_take, hkdfExpand_length]
  omega

end Rdap.Protocol
