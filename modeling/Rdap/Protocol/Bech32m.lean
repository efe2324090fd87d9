import Rdap.Python.Text

/-!
# Bech32m

The address codec of the protocol reference. The decoder takes a string in one case and
folds it to lower case before it looks at the characters.
-/

set_option autoImplicit false

namespace Rdap.Protocol.Bech32m
open Python

def charset : PyStr := lit "qpzry9x8gf2tvdw0s3jn54khce6mua7l"

def bech32mConst : Nat := 0x2bc830a3

def gen : List Nat := [0x3b6a57b2, 0x26508e6d, 0x1ea119fa, 0x3d4233dd, 0x2a1462b3]

def polymodStep (chk v : Nat) : Nat :=
  let b := chk >>> 25
  (List.range 5).foldl (fun chk i => chk ^^^ if (b >>> i) &&& 1 = 1 then gen.getD i 0 else 0)
    (((chk &&& 0x1ffffff) <<< 5) ^^^ v)

def polymod (values : List Nat) : Nat := values.foldl polymodStep 1

def hrpExpand (hrp : PyStr) : List Nat :=
  hrp.map (fun c => c.val >>> 5) ++ [0] ++ hrp.map fun c => c.val &&& 31

def createChecksum (hrp : PyStr) (data : List Nat) : List Nat :=
  let checksum := polymod (hrpExpand hrp ++ data ++ [0, 0, 0, 0, 0, 0]) ^^^ bech32mConst
  (List.range 6).map fun i => (checksum >>> (5 * (5 - i))) &&& 31

def verifyChecksum (hrp : PyStr) (data : List Nat) : Bool :=
  polymod (hrpExpand hrp ++ data) == bech32mConst

/-! ## Regrouping bits -/

/-- The inner `while bits >= tobits`; every turn takes `tobits` bits away, so `bits` turns
are enough. -/
def drainBits (acc tobits : Nat) : Nat → Nat → List Nat → Nat × List Nat
  | 0, bits, ret => (bits, ret)
  | turns + 1, bits, ret =>
    if bits ≥ tobits then
      drainBits acc tobits turns (bits - tobits)
        (ret ++ [(acc >>> (bits - tobits)) &&& ((1 <<< tobits) - 1)])
    else (bits, ret)

structure BitBuffer where
  acc : Nat
  bits : Nat
  ret : List Nat

def pushBits (frombits tobits : Nat) (buffer : BitBuffer) (value : Nat) : Option BitBuffer :=
  if value >>> frombits ≠ 0 then none
  else
    let acc := (buffer.acc <<< frombits) ||| value
    let bits := buffer.bits + frombits
    let drained := drainBits acc tobits bits bits buffer.ret
    some ⟨acc, drained.1, drained.2⟩

def convertbits (data : List Nat) (frombits tobits : Nat) (pad : Bool) : Option (List Nat) :=
  match data.foldlM (pushBits frombits tobits) ⟨0, 0, []⟩ with
  | none => none
  | some buffer =>
    let last := (buffer.acc <<< (tobits - buffer.bits)) &&& ((1 <<< tobits) - 1)
    if pad then
      if buffer.bits ≠ 0 then some (buffer.ret ++ [last]) else some buffer.ret
    else if buffer.bits ≥ frombits ∨ last ≠ 0 then none
    else some buffer.ret

/-- Draining moves whole groups out of the buffer and leaves less than one. -/
theorem drainBits_count {acc tobits turns bits : Nat} {ret : List Nat} (hpos : 0 < tobits)
    (hturns : bits ≤ turns) :
    (drainBits acc tobits turns bits ret).2.length * tobits +
        (drainBits acc tobits turns bits ret).1 = ret.length * tobits + bits ∧
      (drainBits acc tobits turns bits ret).1 < tobits := by
  induction turns generalizing bits ret with
  | zero =>
    have hzero : bits = 0 := by omega
    simp [drainBits, hzero, hpos]
  | succ turns ih =>
    unfold drainBits
    split
    · rename_i hge
      obtain ⟨hcount, hlt⟩ := @ih (bits - tobits)
        (ret ++ [(acc >>> (bits - tobits)) &&& ((1 <<< tobits) - 1)]) (by omega)
      refine ⟨?_, hlt⟩
      rw [hcount, List.length_append, List.length_singleton, Nat.add_mul]
      omega
    · rename_i hlt
      exact ⟨rfl, by omega⟩

theorem pushBits_count {frombits tobits value : Nat} {buffer next : BitBuffer} (hpos : 0 < tobits)
    (h : pushBits frombits tobits buffer value = some next) :
    next.ret.length * tobits + next.bits = buffer.ret.length * tobits + buffer.bits + frombits ∧
      next.bits < tobits := by
  unfold pushBits at h
  split at h
  · cases h
  · obtain rfl := Option.some.inj h
    have hcount := @drainBits_count ((buffer.acc <<< frombits) ||| value) tobits _ _ buffer.ret
      hpos (Nat.le_refl (buffer.bits + frombits))
    refine ⟨?_, hcount.2⟩
    rw [Nat.add_assoc]
    exact hcount.1

theorem foldlM_pushBits_count {frombits tobits : Nat} {data : List Nat} {buffer last : BitBuffer}
    (hpos : 0 < tobits) (hbits : buffer.bits < tobits)
    (h : data.foldlM (pushBits frombits tobits) buffer = some last) :
    last.ret.length * tobits + last.bits =
      buffer.ret.length * tobits + buffer.bits + data.length * frombits ∧ last.bits < tobits := by
  induction data generalizing buffer with
  | nil =>
    obtain rfl : buffer = last := by simpa [pure] using h
    exact ⟨by simp, hbits⟩
  | cons v vs ih =>
    obtain ⟨next, hnext, hrest⟩ := Option.bind_eq_some_iff.mp h
    obtain ⟨hstep, hlt⟩ := pushBits_count hpos hnext
    obtain ⟨hcount, hlast⟩ := ih hlt hrest
    refine ⟨?_, hlast⟩
    rw [hcount, hstep, List.length_cons, Nat.add_mul]
    omega

theorem convertbits_length {data out : List Nat} {frombits tobits : Nat} {pad : Bool}
    (hpos : 0 < tobits) (h : convertbits data frombits tobits pad = some out) :
    out.length * tobits < data.length * frombits + tobits := by
  unfold convertbits at h
  split at h
  · cases h
  · rename_i buffer hfold
    obtain ⟨hcount, hlt⟩ := foldlM_pushBits_count hpos
      (show (⟨0, 0, []⟩ : BitBuffer).bits < tobits from hpos) hfold
    simp only [List.length_nil, Nat.zero_mul, Nat.zero_add] at hcount
    split at h
    · split at h
      · rename_i hbits
        obtain rfl := Option.some.inj h
        rw [List.length_append, List.length_singleton, Nat.add_mul, Nat.one_mul]
        omega
      · obtain rfl := Option.some.inj h
        omega
    · simp only at h
      split at h
      · cases h
      · obtain rfl := Option.some.inj h
        omega

/-! ## Codec -/

def charAt (d : Nat) : CodePoint := charset.getD d 0

def encode (hrp : PyStr) (payload : Bytes) : PyStr :=
  let data := (convertbits (payload.map UInt8.toNat) 8 5 true).getD []
  hrp ++ lit "1" ++ (data ++ createChecksum hrp data).map charAt

theorem charAt_ascii (d : Nat) : isAscii (charAt d) = true := by
  have hcharset : charset.all isAscii = true := by decide +kernel
  unfold charAt
  rw [List.getD_eq_getElem?_getD]
  cases hd : charset[d]? with
  | none => rfl
  | some c => exact List.all_eq_true.mp hcharset c (List.mem_of_getElem? hd)

theorem encode_ascii {hrp : PyStr} (payload : Bytes) (h : hrp.all isAscii = true) :
    (encode hrp payload).all isAscii = true := by
  have hone : (lit "1").all isAscii = true := by decide
  have hdata : ∀ ds : List Nat, (ds.map charAt).all isAscii = true := by
    intro ds
    apply List.all_eq_true.mpr
    intro c hc
    obtain ⟨d, _, rfl⟩ := List.mem_map.mp hc
    exact charAt_ascii d
  unfold encode
  simp only [List.all_append, h, hone, hdata, Bool.and_self]

theorem encode_length (hrp : PyStr) (payload : Bytes) :
    5 * (encode hrp payload).length < 8 * payload.length + 5 * hrp.length + 40 := by
  have hone : (lit "1").length = 1 := by decide
  have hchecksum : ∀ data, (createChecksum hrp data).length = 6 := by
    intro data
    simp [createChecksum]
  unfold encode
  simp only [List.length_append, List.length_map, hone, hchecksum]
  cases hdata : convertbits (payload.map UInt8.toNat) 8 5 true with
  | none =>
    simp only [Option.getD_none, List.length_nil]
    omega
  | some data =>
    have hlen := convertbits_length (by omega) hdata
    rw [List.length_map] at hlen
    simp only [Option.getD_some]
    omega

def rfind (s : PyStr) (c : CodePoint) : Option Nat :=
  (s.reverse.findIdx? (· = c)).map fun i => s.length - 1 - i

/-- What `decode` does with the folded string. -/
def decodeLower (s : PyStr) : Option (PyStr × Bytes) :=
  match rfind s 49 with
  | none => none
  | some pos =>
    if pos < 1 ∨ pos + 7 > s.length then none
    else
      match (s.drop (pos + 1)).mapM fun c => charset.idxOf? c with
      | none => none
      | some data =>
        if verifyChecksum (s.take pos) data then
          (convertbits (data.take (data.length - 6)) 5 8 false).map fun payload =>
            (s.take pos, payload.map UInt8.ofNat)
        else none

def decode (s : PyStr) : Option (PyStr × Bytes) :=
  if s.any fun c => c.val < 33 || c.val > 126 then none
  else if s.map asciiLower ≠ s ∧ s.map asciiUpper ≠ s then none
  else decodeLower (s.map asciiLower)

end Rdap.Protocol.Bech32m
