import Rdap.Lib.Machine
import Rdap.Protocol.EcRatchet

/-!
# The epochs of the SCKA ratchet

Both directions share one root key. An epoch starts when one side promotes a shared secret: the
root moves on, and the chain of the initiator's direction starts afresh on both sides, each with
its own counter.
-/

set_option autoImplicit false

namespace Rdap.Protocol
open Python Lib

/-- `ATSAM/hybrid-ratchet/v2`, a zero and `SPQR` -/
def spqrProtocolInfo : Bytes :=
  [0x41, 0x54, 0x53, 0x41, 0x4d, 0x2f, 0x68, 0x79, 0x62, 0x72, 0x69, 0x64, 0x2d, 0x72, 0x61, 0x74,
    0x63, 0x68, 0x65, 0x74, 0x2f, 0x76, 0x32, 0, 0x53, 0x50, 0x51, 0x52]

/-- That, a zero and `SCKA-INIT` -/
def sckaInitInfo : Bytes :=
  spqrProtocolInfo ++ [0, 0x53, 0x43, 0x4b, 0x41, 0x2d, 0x49, 0x4e, 0x49, 0x54]

variable (P : Platform)

structure SckaInitOut where
  rk : Bytes
  ckSend : Bytes
  ckRecv : Bytes

/-- The 96 bytes that both initialisations cut up. -/
def sckaInitOkm (skScka : Bytes) : Bytes := hkdfSha256 P skScka zeroKey sckaInitInfo 96

def ratchetInitAliceScka (skScka : Bytes) : Except PyExc SckaInitOut := do
  orRaise (skScka.length = 32) (lit "SK_scka must be 32 bytes")
  let okm := sckaInitOkm P skScka
  return ⟨okm.take 32, (okm.drop 32).take 32, (okm.drop 64).take 32⟩

def ratchetInitBobScka (skScka : Bytes) : Except PyExc SckaInitOut := do
  orRaise (skScka.length = 32) (lit "SK_scka must be 32 bytes")
  let okm := sckaInitOkm P skScka
  return ⟨okm.take 32, (okm.drop 64).take 32, (okm.drop 32).take 32⟩

/-- The output of `kdf_scka_rk`: the next root and a chain key. -/
def sckaRkStep (rk ss : Bytes) : Bytes × Bytes :=
  let okm := hkdfSha256 P ss rk spqrProtocolInfo 64
  (okm.take 32, okm.drop 32)

def kdfSckaRk (rk ss : Bytes) : Except PyExc (Bytes × Bytes) := do
  orRaise (rk.length = 32 ∧ ss.length = 32) (lit "rk and ss must be 32 bytes")
  orRaise (ss ≠ zeroKey) (lit "non-contributory SCKA ss rejected")
  return sckaRkStep P rk ss

def kdfSckaCk (ck : Bytes) : Except PyExc (Bytes × Bytes) := kdfCk P ck

structure SckaEpochState where
  rk : Bytes
  ckSend : Bytes
  ckRecv : Bytes
  sendingEpoch : Nat := 0
  receivingEpoch : Nat := 0
  sendCtr : Nat := 0
  recvCtr : Nat := 0

def sckaFromInit (alice : Bool) (skScka : Bytes) : Except PyExc SckaEpochState :=
  (if alice then ratchetInitAliceScka P skScka else ratchetInitBobScka P skScka).map fun init =>
    { rk := init.rk, ckSend := init.ckSend, ckRecv := init.ckRecv }

def sckaEpochPromoteInitiator (state : SckaEpochState) (ss : Bytes) : Except PyExc SckaEpochState := do
  let (rk2, ck) ← kdfSckaRk P state.rk ss
  return { state with rk := rk2, ckSend := ck, sendingEpoch := state.sendingEpoch + 1, sendCtr := 0 }

def sckaEpochPromoteResponder (state : SckaEpochState) (ss : Bytes) : Except PyExc SckaEpochState := do
  let (rk2, ck) ← kdfSckaRk P state.rk ss
  return { state with rk := rk2, ckRecv := ck, receivingEpoch := state.receivingEpoch + 1, recvCtr := 0 }

def sckaNextSendMk (state : SckaEpochState) : Except PyExc (SckaEpochState × Bytes) := do
  let (ck2, mk) ← kdfSckaCk P state.ckSend
  return ({ state with ckSend := ck2, sendCtr := state.sendCtr + 1 }, mk)

def sckaNextRecvMk (state : SckaEpochState) : Except PyExc (SckaEpochState × Bytes) := do
  let (ck2, mk) ← kdfSckaCk P state.ckRecv
  return ({ state with ckRecv := ck2, recvCtr := state.recvCtr + 1 }, mk)

variable {P}

/-! ## What the functions return -/

/-- A secret that can be promoted. -/
def Contributory (ss : Bytes) : Prop := ss.length = 32 ∧ ss ≠ zeroKey

theorem sckaRkStep_lengths (rk ss : Bytes) :
    (sckaRkStep P rk ss).1.length = 32 ∧ (sckaRkStep P rk ss).2.length = 32 := by
  simp [sckaRkStep, hkdfSha256_length]

theorem kdfSckaRk_ok {rk ss : Bytes} {out : Bytes × Bytes} :
    kdfSckaRk P rk ss = .ok out ↔ rk.length = 32 ∧ Contributory ss ∧ out = sckaRkStep P rk ss := by
  unfold kdfSckaRk Contributory
  simp only [bind_ok, orRaise_ok, pure_ok]
  constructor
  · rintro ⟨-, ⟨hrk, hss⟩, -, hne, rfl⟩
    exact ⟨hrk, ⟨hss, hne⟩, rfl⟩
  · rintro ⟨hrk, ⟨hss, hne⟩, rfl⟩
    exact ⟨(), ⟨hrk, hss⟩, (), hne, rfl⟩

theorem kdfSckaCk_ok {ck : Bytes} {out : Bytes × Bytes} :
    kdfSckaCk P ck = .ok out ↔ ck.length = 32 ∧ out = (nextChainKey P ck, messageKey P ck) := by
  unfold kdfSckaCk kdfCk
  simp only [bind_ok, orRaise_ok, pure_ok]
  constructor
  · rintro ⟨-, hck, rfl⟩
    exact ⟨hck, rfl⟩
  · rintro ⟨hck, rfl⟩
    exact ⟨(), hck, rfl⟩

theorem promoteInitiator_ok {state next : SckaEpochState} {ss : Bytes} :
    sckaEpochPromoteInitiator P state ss = .ok next ↔ state.rk.length = 32 ∧ Contributory ss ∧
      next = { state with rk := (sckaRkStep P state.rk ss).1, ckSend := (sckaRkStep P state.rk ss).2
                          sendingEpoch := state.sendingEpoch + 1, sendCtr := 0 } := by
  unfold sckaEpochPromoteInitiator
  simp only [bind_ok, kdfSckaRk_ok, pure_ok]
  constructor
  · rintro ⟨out, ⟨hrk, hss, rfl⟩, rfl⟩
    exact ⟨hrk, hss, rfl⟩
  · rintro ⟨hrk, hss, rfl⟩
    exact ⟨_, ⟨hrk, hss, rfl⟩, rfl⟩

theorem promoteResponder_ok {state next : SckaEpochState} {ss : Bytes} :
    sckaEpochPromoteResponder P state ss = .ok next ↔ state.rk.length = 32 ∧ Contributory ss ∧
      next = { state with rk := (sckaRkStep P state.rk ss).1, ckRecv := (sckaRkStep P state.rk ss).2
                          receivingEpoch := state.receivingEpoch + 1, recvCtr := 0 } := by
  unfold sckaEpochPromoteResponder
  simp only [bind_ok, kdfSckaRk_ok, pure_ok]
  constructor
  · rintro ⟨out, ⟨hrk, hss, rfl⟩, rfl⟩
    exact ⟨hrk, hss, rfl⟩
  · rintro ⟨hrk, hss, rfl⟩
    exact ⟨_, ⟨hrk, hss, rfl⟩, rfl⟩

theorem nextSendMk_ok {state next : SckaEpochState} {mk : Bytes} :
    sckaNextSendMk P state = .ok (next, mk) ↔ state.ckSend.length = 32 ∧
      next = { state with ckSend := nextChainKey P state.ckSend, sendCtr := state.sendCtr + 1 } ∧
      mk = messageKey P state.ckSend := by
  unfold sckaNextSendMk
  simp only [bind_ok, kdfSckaCk_ok, pure_ok]
  constructor
  · rintro ⟨out, ⟨hck, rfl⟩, heq⟩
    cases heq
    exact ⟨hck, rfl, rfl⟩
  · rintro ⟨hck, rfl, rfl⟩
    exact ⟨_, ⟨hck, rfl⟩, rfl⟩

theorem nextRecvMk_ok {state next : SckaEpochState} {mk : Bytes} :
    sckaNextRecvMk P state = .ok (next, mk) ↔ state.ckRecv.length = 32 ∧
      next = { state with ckRecv := nextChainKey P state.ckRecv, recvCtr := state.recvCtr + 1 } ∧
      mk = messageKey P state.ckRecv := by
  unfold sckaNextRecvMk
  simp only [bind_ok, kdfSckaCk_ok, pure_ok]
  constructor
  · rintro ⟨out, ⟨hck, rfl⟩, heq⟩
    cases heq
    exact ⟨hck, rfl, rfl⟩
  · rintro ⟨hck, rfl, rfl⟩
    exact ⟨_, ⟨hck, rfl⟩, rfl⟩

theorem sckaFromInit_ok {alice : Bool} {skScka : Bytes} {state : SckaEpochState} :
    sckaFromInit P alice skScka = .ok state ↔ skScka.length = 32 ∧
      state =
        { rk := (sckaInitOkm P skScka).take 32
          ckSend := ((sckaInitOkm P skScka).drop (if alice then 32 else 64)).take 32
          ckRecv := ((sckaInitOkm P skScka).drop (if alice then 64 else 32)).take 32 } := by
  unfold sckaFromInit ratchetInitAliceScka ratchetInitBobScka
  by_cases h : skScka.length = 32
  · cases alice <;> simp [orRaise, h, Except.map, bind, Except.bind, pure, Except.pure, eq_comm]
  · cases alice <;> simp [orRaise, h, valueError, Except.map, bind, Except.bind]

end Rdap.Protocol
