import Rdap.Braid.WireCodecs
import Rdap.Braid.State

/-!
# The state codecs are canonical

The encoder and the decoder of each format admit the same values and write and read the same
layout, so they are inverse to each other. The keys that the encoder does not measure and
the sections it leaves out are settled by the checks that both make.
-/

set_option autoImplicit false

namespace Rdap.Braid
open Python Lib

/-! ## Lists -/

section Lists

variable {α : Type} {D : α → Prop} {enc : α → Bytes} {encode : α → Except PyExc Bytes}
  {read : Bytes → Except PyExc (α × Bytes)}

theorem requireBytes_ok {value : Bytes} {length : Nat} {fieldName : PyStr} {u : Unit} :
    requireBytes value length fieldName = .ok u ↔ value.length = length := orRaise_ok

theorem checkEach_ok {check : α → Except PyExc Unit} {values : List α} {u : Unit} :
    checkEach check values = .ok u ↔ ∀ v ∈ values, check v = .ok () := by
  induction values with
  | nil => simp [checkEach]
  | cons v values ih =>
    simp only [checkEach, bind_ok, ih, List.mem_cons, forall_eq_or_imp]
    constructor
    · rintro ⟨⟨⟩, hv, hrest⟩
      exact ⟨hv, hrest⟩
    · rintro ⟨hv, hrest⟩
      exact ⟨(), hv, hrest⟩

theorem encodeEach_ok (h : ∀ a b, encode a = .ok b ↔ D a ∧ b = enc a) {values : List α} {b : Bytes} :
    encodeEach encode values = .ok b ↔ (∀ v ∈ values, D v) ∧ b = values.flatMap enc := by
  induction values generalizing b with
  | nil => simp [encodeEach, eq_comm]
  | cons v values ih =>
    simp only [encodeEach, bind_ok, pure_ok, h, ih, List.mem_cons, forall_eq_or_imp, List.flatMap_cons]
    constructor
    · rintro ⟨_, ⟨hv, rfl⟩, _, ⟨hrest, rfl⟩, rfl⟩
      exact ⟨⟨hv, hrest⟩, rfl⟩
    · rintro ⟨⟨hv, hrest⟩, rfl⟩
      exact ⟨_, ⟨hv, rfl⟩, _, ⟨hrest, rfl⟩, rfl⟩

def listLayout (enc : α → Bytes) (values : List α) : Bytes :=
  word 2 values.length ++ values.flatMap enc

theorem encodeList_ok (h : ∀ a b, encode a = .ok b ↔ D a ∧ b = enc a) {values : List α} {b : Bytes} :
    encodeList encode values = .ok b ↔
      (Word 2 values.length ∧ ∀ v ∈ values, D v) ∧ b = listLayout enc values := by
  simp only [encodeList, bind_ok, pure_ok, toBytes_ok, encodeEach_ok h]
  constructor
  · rintro ⟨_, ⟨hlength, rfl⟩, _, ⟨hvalues, rfl⟩, rfl⟩
    exact ⟨⟨hlength, hvalues⟩, rfl⟩
  · rintro ⟨⟨hlength, hvalues⟩, rfl⟩
    exact ⟨_, ⟨hlength, rfl⟩, _, ⟨hvalues, rfl⟩, rfl⟩

theorem readList_reads (h : Reads D enc read) :
    Reads (fun values : List α => Word 2 values.length ∧ ∀ v ∈ values, D v) (listLayout enc)
      (readList read) := by
  intro r values rest
  unfold readList
  simp only [bind_ok, Prod.exists]
  constructor
  · rintro ⟨n, r', hlength, hread⟩
    obtain ⟨hword, rfl⟩ := (readWord_reads 2).split hlength
    obtain ⟨⟨hcount, hvalues⟩, rfl⟩ := (h.many n.toNat).split hread
    have hn : ((values.length : Nat) : Int) = n := by
      rw [hcount, Int.toNat_of_nonneg hword.1]
    exact ⟨⟨hn ▸ hword, hvalues⟩, by rw [listLayout, hn, List.append_assoc]⟩
  · rintro ⟨⟨hlength, hvalues⟩, rfl⟩
    refine ⟨_, _, ?_, (h.many _).append ⟨(Int.toNat_natCast _).symm, hvalues⟩ rest⟩
    rw [listLayout, List.append_assoc]
    exact (readWord_reads 2).append hlength _

theorem readCapped_reads (h : Reads D enc read) {cap : Nat} (hcap : cap < 65536) (message : PyStr) :
    Reads (fun values : List α => values.length ≤ cap ∧ ∀ v ∈ values, D v) (listLayout enc)
      (readCapped cap message read) := by
  intro r values rest
  unfold readCapped
  simp only [bind_ok, orRaise_ok, Prod.exists]
  constructor
  · rintro ⟨n, r', hlength, -, hle, hread⟩
    obtain ⟨hword, rfl⟩ := (readWord_reads 2).split hlength
    obtain ⟨⟨hcount, hvalues⟩, rfl⟩ := (h.many n.toNat).split hread
    have hn : ((values.length : Nat) : Int) = n := by
      rw [hcount, Int.toNat_of_nonneg hword.1]
    refine ⟨⟨?_, hvalues⟩, by rw [listLayout, hn, List.append_assoc]⟩
    omega
  · rintro ⟨⟨hle, hvalues⟩, rfl⟩
    have hlength : Word 2 values.length := word_natCast (by omega)
    refine ⟨_, _, ?_, (), ?_, (h.many _).append ⟨(Int.toNat_natCast _).symm, hvalues⟩ rest⟩
    · rw [listLayout, List.append_assoc]
      exact (readWord_reads 2).append hlength _
    · exact_mod_cast hle

theorem flatMap_length_of {n : Nat} {values : List α} (h : ∀ v ∈ values, (enc v).length = n) :
    (values.flatMap enc).length = values.length * n := by
  induction values with
  | nil => simp
  | cons v values ih =>
    have hrest := ih fun x hx => h x (List.mem_cons_of_mem v hx)
    rw [List.flatMap_cons, List.length_append, hrest, h v List.mem_cons_self, List.length_cons,
      Nat.add_mul, Nat.one_mul, Nat.add_comm]

end Lists

/-! ## The entries of the ratchets -/

structure SckaChainEntry.Fits (e : SckaChainEntry) : Prop where
  epoch : Word 8 e.epoch
  n : Word 4 e.n

def SckaChainEntry.layout (e : SckaChainEntry) : Bytes := word 8 e.epoch ++ (e.ck ++ word 4 e.n)

theorem encodeSckaChainEntry_ok (e : SckaChainEntry) (b : Bytes) :
    encodeSckaChainEntry e = .ok b ↔ e.Fits ∧ b = e.layout := by
  simp only [encodeSckaChainEntry, bind_ok, pure_ok, toBytes_ok]
  constructor
  · rintro ⟨_, ⟨hepoch, rfl⟩, _, ⟨hn, rfl⟩, rfl⟩
    exact ⟨⟨hepoch, hn⟩, rfl⟩
  · rintro ⟨h, rfl⟩
    exact ⟨_, ⟨h.epoch, rfl⟩, _, ⟨h.n, rfl⟩, rfl⟩

theorem readSckaChainEntry_reads :
    Reads (fun e : SckaChainEntry => e.Fits ∧ e.ck.length = 32) SckaChainEntry.layout
      readSckaChainEntry := by
  intro r e rest
  simp only [readSckaChainEntry, bind_ok, pure_ok, Prod.exists, Prod.mk.injEq]
  constructor
  · rintro ⟨epoch, r₁, hread₁, ck, r₂, hread₂, n, r₃, hread₃, rfl, rfl⟩
    obtain ⟨hepoch, rfl⟩ := (readWord_reads 8).split hread₁
    obtain ⟨hck, rfl⟩ := readArray32_reads.split hread₂
    obtain ⟨hn, rfl⟩ := (readWord_reads 4).split hread₃
    exact ⟨⟨⟨hepoch, hn⟩, hck⟩, by simp only [SckaChainEntry.layout, List.append_assoc]⟩
  · rintro ⟨⟨h, hck⟩, rfl⟩
    simp only [SckaChainEntry.layout, List.append_assoc]
    exact ⟨_, _, (readWord_reads 8).append h.epoch _, _, _, readArray32_reads.append hck _, _, _,
      (readWord_reads 4).append h.n _, rfl, rfl⟩

structure SckaSkippedEntry.Fits (e : SckaSkippedEntry) : Prop where
  direction : Word 1 e.direction
  epoch : Word 8 e.epoch
  n : Word 4 e.n

def SckaSkippedEntry.layout (e : SckaSkippedEntry) : Bytes :=
  word 1 e.direction ++ (word 8 e.epoch ++ (word 4 e.n ++ e.messageKey))

theorem encodeSckaSkippedEntry_ok (e : SckaSkippedEntry) (b : Bytes) :
    encodeSckaSkippedEntry e = .ok b ↔ e.Fits ∧ b = e.layout := by
  simp only [encodeSckaSkippedEntry, bind_ok, pure_ok, toBytes_ok]
  constructor
  · rintro ⟨_, ⟨hdirection, rfl⟩, _, ⟨hepoch, rfl⟩, _, ⟨hn, rfl⟩, rfl⟩
    exact ⟨⟨hdirection, hepoch, hn⟩, rfl⟩
  · rintro ⟨h, rfl⟩
    exact ⟨_, ⟨h.direction, rfl⟩, _, ⟨h.epoch, rfl⟩, _, ⟨h.n, rfl⟩, rfl⟩

theorem readSckaSkippedEntry_reads :
    Reads (fun e : SckaSkippedEntry => e.Fits ∧ e.messageKey.length = 32) SckaSkippedEntry.layout
      readSckaSkippedEntry := by
  intro r e rest
  simp only [readSckaSkippedEntry, bind_ok, pure_ok, Prod.exists, Prod.mk.injEq]
  constructor
  · rintro ⟨direction, r₁, hread₁, epoch, r₂, hread₂, n, r₃, hread₃, key, r₄, hread₄, rfl, rfl⟩
    obtain ⟨hdirection, rfl⟩ := (readWord_reads 1).split hread₁
    obtain ⟨hepoch, rfl⟩ := (readWord_reads 8).split hread₂
    obtain ⟨hn, rfl⟩ := (readWord_reads 4).split hread₃
    obtain ⟨hkey, rfl⟩ := readArray32_reads.split hread₄
    exact ⟨⟨⟨hdirection, hepoch, hn⟩, hkey⟩, by simp only [SckaSkippedEntry.layout, List.append_assoc]⟩
  · rintro ⟨⟨h, hkey⟩, rfl⟩
    simp only [SckaSkippedEntry.layout, List.append_assoc]
    exact ⟨_, _, (readWord_reads 1).append h.direction _, _, _, (readWord_reads 8).append h.epoch _, _, _,
      (readWord_reads 4).append h.n _, _, _, readArray32_reads.append hkey _, rfl, rfl⟩

structure EcSkippedEntry.Keyed (e : EcSkippedEntry) : Prop where
  dhPub : e.dhPub.length = 32
  messageKey : e.messageKey.length = 32

def EcSkippedEntry.layout (e : EcSkippedEntry) : Bytes := e.dhPub ++ (word 4 e.n ++ e.messageKey)

theorem encodeEcSkippedEntry_ok (e : EcSkippedEntry) (b : Bytes) :
    encodeEcSkippedEntry e = .ok b ↔ Word 4 e.n ∧ b = e.layout := by
  simp only [encodeEcSkippedEntry, bind_ok, pure_ok, toBytes_ok]
  constructor
  · rintro ⟨_, ⟨hn, rfl⟩, rfl⟩
    exact ⟨hn, rfl⟩
  · rintro ⟨hn, rfl⟩
    exact ⟨_, ⟨hn, rfl⟩, rfl⟩

theorem readEcSkippedEntry_reads :
    Reads (fun e : EcSkippedEntry => Word 4 e.n ∧ e.Keyed) EcSkippedEntry.layout readEcSkippedEntry := by
  intro r e rest
  simp only [readEcSkippedEntry, bind_ok, pure_ok, Prod.exists, Prod.mk.injEq]
  constructor
  · rintro ⟨dhPub, r₁, hread₁, n, r₂, hread₂, key, r₃, hread₃, rfl, rfl⟩
    obtain ⟨hpub, rfl⟩ := readArray32_reads.split hread₁
    obtain ⟨hn, rfl⟩ := (readWord_reads 4).split hread₂
    obtain ⟨hkey, rfl⟩ := readArray32_reads.split hread₃
    exact ⟨⟨hn, ⟨hpub, hkey⟩⟩, by simp only [EcSkippedEntry.layout, List.append_assoc]⟩
  · rintro ⟨⟨hn, h⟩, rfl⟩
    simp only [EcSkippedEntry.layout, List.append_assoc]
    exact ⟨_, _, readArray32_reads.append h.dhPub _, _, _, (readWord_reads 4).append hn _, _, _,
      readArray32_reads.append h.messageKey _, rfl, rfl⟩

/-! ## RVFT1 -/

/-- A key that may be absent, and is zero then. -/
structure OptionalKey (present : Int) (key : Bytes) : Prop where
  length : key.length = 32
  flag : present = 0 ∨ present = 1
  absent : present = 0 → key = absentKey

theorem validateOptionalKey_ok {present : Int} {key : Bytes} {fieldName : PyStr}
    (h : validateOptionalKey present key fieldName = .ok ()) : OptionalKey present key := by
  unfold validateOptionalKey at h
  simp only [bind_ok, requireBytes_ok] at h
  obtain ⟨-, hlength, h⟩ := h
  split at h
  · rename_i hzero
    exact ⟨hlength, Or.inl hzero, fun _ => orRaise_ok.mp h⟩
  · rename_i hzero
    exact ⟨hlength, Or.inr (orRaise_ok.mp h), fun hz => absurd hz hzero⟩

theorem OptionalKey.keyOrZero {present : Int} {key : Bytes} (h : OptionalKey present key) :
    keyOrZero present key = key := by
  unfold Braid.keyOrZero
  rcases h.flag with hzero | hone
  · rw [h.absent hzero]
    simp
  · rw [if_pos hone]

theorem OptionalKey.word {present : Int} {key : Bytes} (h : OptionalKey present key) :
    Word 1 present := by
  rcases h.flag with h | h <;> rw [h] <;> decide

/-- What the checks of a ratchet state leave to rely on. -/
structure Rvft1.Valid (v : Rvft1) : Prop where
  sckaRk : v.sckaRk.length = 32
  ecRk : v.ecRk.length = 32
  ecDhsPriv : v.ecDhsPriv.length = 32
  ecDhsPub : v.ecDhsPub.length = 32
  sendCap : v.sckaSendChain.length ≤ maxSckaChain
  recvCap : v.sckaRecvChain.length ≤ maxSckaChain
  skippedCap : v.sckaSkipped.length ≤ maxSckaSkipped
  ecSkippedCap : v.ecSkipped.length ≤ maxEcSkipped
  sendKeys : ∀ e ∈ v.sckaSendChain, e.ck.length = 32
  recvKeys : ∀ e ∈ v.sckaRecvChain, e.ck.length = 32
  skippedKeys : ∀ e ∈ v.sckaSkipped, e.messageKey.length = 32
  ecSkippedKeys : ∀ e ∈ v.ecSkipped, e.Keyed
  ecDhr : OptionalKey v.ecDhrPresent v.ecDhrPub
  ecCkSend : OptionalKey v.ecCkSendPresent v.ecCkSend
  ecCkRecv : OptionalKey v.ecCkRecvPresent v.ecCkRecv

theorem validateRvft1_ok {v : Rvft1} (h : validateRvft1 v = .ok ()) : v.Valid := by
  unfold validateRvft1 at h
  simp only [bind_ok, requireBytes_ok, orRaise_ok, checkEach_ok] at h
  obtain ⟨-, hsckaRk, -, hecRk, -, hpriv, -, hpub, -, hsend, -, hrecv, -, hskipped, -, hec, -, -, -, -, -, -,
    -, -, -, hchains, -, hscka, -, hkeys, ⟨⟩, hdhr, ⟨⟩, hckSend, hckRecv⟩ := h
  refine ⟨hsckaRk, hecRk, hpriv, hpub, hsend, hrecv, hskipped, hec, ?_, ?_, ?_, ?_,
    validateOptionalKey_ok hdhr, validateOptionalKey_ok hckSend, validateOptionalKey_ok hckRecv⟩
  · exact fun e he => hchains e (List.mem_append_left _ he)
  · exact fun e he => hchains e (List.mem_append_right _ he)
  · intro e he
    obtain ⟨-, -, hkey⟩ := hscka e he
    exact hkey
  · intro e he
    obtain ⟨-, hdh, hkey⟩ := hkeys e he
    exact ⟨hdh, hkey⟩

/-- The numbers of a ratchet state have the sizes of the layout. -/
structure Rvft1.Fits (v : Rvft1) : Prop where
  sendingEpoch : Word 8 v.sckaSendingEpoch
  receivingEpoch : Word 8 v.sckaReceivingEpoch
  sendChain : ∀ e ∈ v.sckaSendChain, e.Fits
  recvChain : ∀ e ∈ v.sckaRecvChain, e.Fits
  sendPn : Word 4 v.sckaSendPn
  sckaSkipped : ∀ e ∈ v.sckaSkipped, e.Fits
  ecNs : Word 4 v.ecNs
  ecNr : Word 4 v.ecNr
  ecPn : Word 4 v.ecPn
  ecSkipped : ∀ e ∈ v.ecSkipped, Word 4 e.n

def Rvft1.layout (v : Rvft1) : Bytes :=
  rvft1Magic ++ (word 2 rvft1Schema ++ (v.sckaRk ++ (word 8 v.sckaSendingEpoch ++
    (word 8 v.sckaReceivingEpoch ++ (listLayout SckaChainEntry.layout v.sckaSendChain ++
    (listLayout SckaChainEntry.layout v.sckaRecvChain ++ (word 4 v.sckaSendPn ++
    (listLayout SckaSkippedEntry.layout v.sckaSkipped ++ (v.ecRk ++ (v.ecDhsPriv ++ (v.ecDhsPub ++
    (word 1 v.ecDhrPresent ++ (v.ecDhrPub ++ (word 1 v.ecCkSendPresent ++ (word 1 v.ecCkRecvPresent ++
    (v.ecCkSend ++ (v.ecCkRecv ++ (word 4 v.ecNs ++ (word 4 v.ecNr ++ (word 4 v.ecPn ++
    (listLayout EcSkippedEntry.layout v.ecSkipped ++ word 4 0)))))))))))))))))))))

theorem Rvft1.Valid.layout_length {v : Rvft1} (h : v.Valid) : v.layout.length ≤ rvft1MaxSize := by
  have hsend : (v.sckaSendChain.flatMap SckaChainEntry.layout).length = v.sckaSendChain.length * 44 :=
    flatMap_length_of fun e he => by simp [SckaChainEntry.layout, h.sendKeys e he]
  have hrecv : (v.sckaRecvChain.flatMap SckaChainEntry.layout).length = v.sckaRecvChain.length * 44 :=
    flatMap_length_of fun e he => by simp [SckaChainEntry.layout, h.recvKeys e he]
  have hskipped : (v.sckaSkipped.flatMap SckaSkippedEntry.layout).length = v.sckaSkipped.length * 45 :=
    flatMap_length_of fun e he => by simp [SckaSkippedEntry.layout, h.skippedKeys e he]
  have hec : (v.ecSkipped.flatMap EcSkippedEntry.layout).length = v.ecSkipped.length * 68 :=
    flatMap_length_of fun e he => by
      simp [EcSkippedEntry.layout, (h.ecSkippedKeys e he).dhPub, (h.ecSkippedKeys e he).messageKey]
  have hmagic : rvft1Magic.length = 8 := rfl
  have hsendCap : v.sckaSendChain.length ≤ 8 := h.sendCap
  have hrecvCap : v.sckaRecvChain.length ≤ 8 := h.recvCap
  have hskippedCap : v.sckaSkipped.length ≤ 256 := h.skippedCap
  have hecCap : v.ecSkipped.length ≤ 1000 := h.ecSkippedCap
  have hlength : v.layout.length = 281 + (v.sckaSendChain.length * 44 + (v.sckaRecvChain.length * 44 +
      (v.sckaSkipped.length * 45 + v.ecSkipped.length * 68))) := by
    simp only [Rvft1.layout, listLayout, List.length_append, word_length, hsend, hrecv, hskipped, hec,
      h.sckaRk, h.ecRk, h.ecDhsPriv, h.ecDhsPub, h.ecDhr.length, h.ecCkSend.length, h.ecCkRecv.length,
      hmagic]
    clear hmagic hsend hrecv hskipped hec h
    generalize v.sckaSendChain.length = a
    generalize v.sckaRecvChain.length = b
    generalize v.sckaSkipped.length = c
    generalize v.ecSkipped.length = d
    omega
  rw [hlength, rvft1MaxSize]
  clear hlength hsend hrecv hskipped hec hmagic h
  omega

theorem Rvft1.Valid.counts {v : Rvft1} (h : v.Valid) :
    Word 2 v.sckaSendChain.length ∧ Word 2 v.sckaRecvChain.length ∧ Word 2 v.sckaSkipped.length ∧
      Word 2 v.ecSkipped.length := by
  have hsendCap := h.sendCap
  have hrecvCap := h.recvCap
  have hskippedCap := h.skippedCap
  have hecCap := h.ecSkippedCap
  simp only [maxSckaChain, maxSckaSkipped, maxEcSkipped] at *
  exact ⟨word_natCast (by omega), word_natCast (by omega), word_natCast (by omega),
    word_natCast (by omega)⟩

theorem writeRvft1_ok {v : Rvft1} (hvalid : v.Valid) {b : Bytes} :
    writeRvft1 v = .ok b ↔ v.Fits ∧ b = v.layout := by
  have hschema : Word 2 rvft1Schema := by decide
  have hzero : Word 4 0 := by decide
  unfold writeRvft1
  simp only [bind_ok, pure_ok, toBytes_ok, encodeList_ok encodeSckaChainEntry_ok,
    encodeList_ok encodeSckaSkippedEntry_ok, encodeList_ok encodeEcSkippedEntry_ok,
    hvalid.ecDhr.keyOrZero, hvalid.ecCkSend.keyOrZero, hvalid.ecCkRecv.keyOrZero]
  constructor
  · rintro ⟨_, ⟨-, rfl⟩, _, ⟨hsending, rfl⟩, _, ⟨hreceiving, rfl⟩, _, ⟨⟨-, hsend⟩, rfl⟩, _,
      ⟨⟨-, hrecv⟩, rfl⟩, _, ⟨hpn, rfl⟩, _, ⟨⟨-, hskipped⟩, rfl⟩, _, ⟨-, rfl⟩, _, ⟨-, rfl⟩, _, ⟨-, rfl⟩, _,
      ⟨hns, rfl⟩, _, ⟨hnr, rfl⟩, _, ⟨hecPn, rfl⟩, _, ⟨⟨-, hec⟩, rfl⟩, _, ⟨-, rfl⟩, rfl⟩
    exact ⟨⟨hsending, hreceiving, hsend, hrecv, hpn, hskipped, hns, hnr, hecPn, hec⟩, rfl⟩
  · rintro ⟨h, rfl⟩
    obtain ⟨hsend, hrecv, hskipped, hec⟩ := hvalid.counts
    exact ⟨_, ⟨hschema, rfl⟩, _, ⟨h.sendingEpoch, rfl⟩, _, ⟨h.receivingEpoch, rfl⟩, _,
      ⟨⟨hsend, h.sendChain⟩, rfl⟩, _, ⟨⟨hrecv, h.recvChain⟩, rfl⟩, _, ⟨h.sendPn, rfl⟩, _,
      ⟨⟨hskipped, h.sckaSkipped⟩, rfl⟩, _, ⟨hvalid.ecDhr.word, rfl⟩, _, ⟨hvalid.ecCkSend.word, rfl⟩, _,
      ⟨hvalid.ecCkRecv.word, rfl⟩, _, ⟨h.ecNs, rfl⟩, _, ⟨h.ecNr, rfl⟩, _, ⟨h.ecPn, rfl⟩, _,
      ⟨⟨hec, h.ecSkipped⟩, rfl⟩, _, ⟨hzero, rfl⟩, rfl⟩

/-- The check of the size never fires. -/
theorem encodeRvft1_eq (v : Rvft1) : encodeRvft1 v = (do
    validateRvft1 v
    writeRvft1 v) := by
  unfold encodeRvft1
  cases hvalid : validateRvft1 v with
  | error e => rfl
  | ok u =>
    cases hwrite : writeRvft1 v with
    | error e => rfl
    | ok out =>
      obtain ⟨-, rfl⟩ := (writeRvft1_ok (validateRvft1_ok hvalid)).mp hwrite
      rw [ok_bind, ok_bind, ok_bind, orRaise_pos (validateRvft1_ok hvalid).layout_length]
      rfl

theorem encodeRvft1_ok {v : Rvft1} {b : Bytes} :
    encodeRvft1 v = .ok b ↔ (validateRvft1 v = .ok () ∧ v.Fits) ∧ b = v.layout := by
  rw [encodeRvft1_eq, bind_ok]
  constructor
  · rintro ⟨⟨⟩, hvalid, hwrite⟩
    obtain ⟨hfits, rfl⟩ := (writeRvft1_ok (validateRvft1_ok hvalid)).mp hwrite
    exact ⟨⟨hvalid, hfits⟩, rfl⟩
  · rintro ⟨⟨hvalid, hfits⟩, rfl⟩
    exact ⟨(), hvalid, (writeRvft1_ok (validateRvft1_ok hvalid)).mpr ⟨hfits, rfl⟩⟩

theorem decodeRvft1_ok {v : Rvft1} {b : Bytes} :
    decodeRvft1 b = .ok v ↔ (validateRvft1 v = .ok () ∧ v.Fits) ∧ b = v.layout := by
  have hschema : Word 2 rvft1Schema := by decide
  have hzero : Word 4 0 := by decide
  have hchains : maxSckaChain < 65536 := by decide
  have hskippedCap : maxSckaSkipped < 65536 := by decide
  have hecCap : maxEcSkipped < 65536 := by decide
  unfold decodeRvft1
  constructor
  · intro h
    simp only [bind_ok, orRaise_ok, pure_ok, expectMagic_ok (show rvft1Magic.length = 8 from rfl),
      rejectTrailing_ok, Prod.exists] at h
    obtain ⟨-, -, -, hmagic, schema, r, hread, -, rfl, h⟩ := h
    obtain ⟨-, hread⟩ := (readWord_reads 2).split hread
    obtain ⟨sckaRk, r₁, hread₁, sending, r₂, hread₂, receiving, r₃, hread₃, h⟩ := h
    obtain ⟨-, rfl⟩ := readArray32_reads.split hread₁
    obtain ⟨hsending, rfl⟩ := (readWord_reads 8).split hread₂
    obtain ⟨hreceiving, rfl⟩ := (readWord_reads 8).split hread₃
    obtain ⟨sendChain, r₄, hread₄, recvChain, r₅, hread₅, h⟩ := h
    obtain ⟨⟨-, hsendChain⟩, rfl⟩ := (readCapped_reads readSckaChainEntry_reads hchains _).split hread₄
    obtain ⟨⟨-, hrecvChain⟩, rfl⟩ := (readCapped_reads readSckaChainEntry_reads hchains _).split hread₅
    obtain ⟨sendPn, r₆, hread₆, sckaSkipped, r₇, hread₇, h⟩ := h
    obtain ⟨hsendPn, rfl⟩ := (readWord_reads 4).split hread₆
    obtain ⟨⟨-, hsckaSkipped⟩, rfl⟩ :=
      (readCapped_reads readSckaSkippedEntry_reads hskippedCap _).split hread₇
    obtain ⟨ecRk, r₈, hread₈, priv, r₉, hread₉, pub, r₁₀, hread₁₀, h⟩ := h
    obtain ⟨-, rfl⟩ := readArray32_reads.split hread₈
    obtain ⟨-, rfl⟩ := readArray32_reads.split hread₉
    obtain ⟨-, rfl⟩ := readArray32_reads.split hread₁₀
    obtain ⟨dhrPresent, r₁₁, hread₁₁, dhrPub, r₁₂, hread₁₂, h⟩ := h
    obtain ⟨-, rfl⟩ := (readWord_reads 1).split hread₁₁
    obtain ⟨-, rfl⟩ := readArray32_reads.split hread₁₂
    obtain ⟨ckSendPresent, r₁₃, hread₁₃, ckRecvPresent, r₁₄, hread₁₄, h⟩ := h
    obtain ⟨-, rfl⟩ := (readWord_reads 1).split hread₁₃
    obtain ⟨-, rfl⟩ := (readWord_reads 1).split hread₁₄
    obtain ⟨ckSend, r₁₅, hread₁₅, ckRecv, r₁₆, hread₁₆, h⟩ := h
    obtain ⟨-, rfl⟩ := readArray32_reads.split hread₁₅
    obtain ⟨-, rfl⟩ := readArray32_reads.split hread₁₆
    obtain ⟨ns, r₁₇, hread₁₇, nr, r₁₈, hread₁₈, pn, r₁₉, hread₁₉, h⟩ := h
    obtain ⟨hns, rfl⟩ := (readWord_reads 4).split hread₁₇
    obtain ⟨hnr, rfl⟩ := (readWord_reads 4).split hread₁₈
    obtain ⟨hpn, rfl⟩ := (readWord_reads 4).split hread₁₉
    obtain ⟨ecSkipped, r₂₀, hread₂₀, tail, r₂₁, hread₂₁, -, rfl, -, rfl, ⟨⟩, hvalid, rfl⟩ := h
    obtain ⟨⟨-, hecSkipped⟩, rfl⟩ := (readCapped_reads readEcSkippedEntry_reads hecCap _).split hread₂₀
    obtain ⟨-, rfl⟩ := (readWord_reads 4).split hread₂₁
    refine ⟨⟨hvalid, ⟨hsending, hreceiving, fun e he => (hsendChain e he).1,
      fun e he => (hrecvChain e he).1, hsendPn, fun e he => (hsckaSkipped e he).1, hns, hnr, hpn,
      fun e he => (hecSkipped e he).1⟩⟩, ?_⟩
    rw [hmagic, hread]
    simp only [Rvft1.layout, List.append_nil]
  · rintro ⟨⟨hvalid, h⟩, rfl⟩
    have hv := validateRvft1_ok hvalid
    have hend : word 4 0 = word 4 0 ++ [] := (List.append_nil _).symm
    rw [orRaise_pos hv.layout_length]
    unfold Rvft1.layout
    rw [hend, expectMagic_append rfl, List.drop_left' (show rvft1Magic.length = 8 from rfl)]
    simp only [ok_bind, (readWord_reads 2).append hschema, orRaise_pos, readArray32_reads.append hv.sckaRk,
      (readWord_reads 8).append h.sendingEpoch, (readWord_reads 8).append h.receivingEpoch,
      (readCapped_reads readSckaChainEntry_reads hchains _).append
        ⟨hv.sendCap, fun e he => ⟨h.sendChain e he, hv.sendKeys e he⟩⟩,
      (readCapped_reads readSckaChainEntry_reads hchains _).append
        ⟨hv.recvCap, fun e he => ⟨h.recvChain e he, hv.recvKeys e he⟩⟩,
      (readWord_reads 4).append h.sendPn,
      (readCapped_reads readSckaSkippedEntry_reads hskippedCap _).append
        ⟨hv.skippedCap, fun e he => ⟨h.sckaSkipped e he, hv.skippedKeys e he⟩⟩,
      readArray32_reads.append hv.ecRk, readArray32_reads.append hv.ecDhsPriv,
      readArray32_reads.append hv.ecDhsPub, (readWord_reads 1).append hv.ecDhr.word,
      readArray32_reads.append hv.ecDhr.length, (readWord_reads 1).append hv.ecCkSend.word,
      (readWord_reads 1).append hv.ecCkRecv.word, readArray32_reads.append hv.ecCkSend.length,
      readArray32_reads.append hv.ecCkRecv.length, (readWord_reads 4).append h.ecNs,
      (readWord_reads 4).append h.ecNr, (readWord_reads 4).append h.ecPn,
      (readCapped_reads readEcSkippedEntry_reads hecCap _).append
        ⟨hv.ecSkippedCap, fun e he => ⟨h.ecSkipped e he, hv.ecSkippedKeys e he⟩⟩,
      (readWord_reads 4).append hzero, rejectTrailing, hvalid]
    rfl

end Rdap.Braid
