import Rdap.Lib.Reader
import Rdap.Python.Raise

/-!
# The wire reader

The codecs of the braid write integers of one, two, four or eight bytes, and read them with a
reader that checks for room. The wire codecs mask a single byte where wider ones raise.
-/

set_option autoImplicit false

namespace Rdap.Braid
open Python Lib

/-- The integers that have `w` bytes. -/
def Word (w : Nat) (n : Int) : Prop := 0 ≤ n ∧ n < 256 ^ w

instance decidableWord (w : Nat) (n : Int) : Decidable (Word w n) :=
  inferInstanceAs (Decidable (0 ≤ n ∧ n < 256 ^ w))

def word (w : Nat) (n : Int) : Bytes := bigEndian w n.toNat

/-- `int(n).to_bytes(w, "big")` -/
def toBytes (w : Nat) (n : Int) : Except PyExc Bytes :=
  if Word w n then .ok (word w n) else .error ⟨.overflowError, lit "int too big to convert"⟩

/-- `bytes([n & 0xFF])` -/
def u8 (n : Int) : Bytes := [UInt8.ofNat (n % 256).toNat]

/-- The readers of `WireReader` return what is left of the data besides the value. -/
def readWord (w : Nat) (r : Bytes) : Except PyExc (Int × Bytes) :=
  if r.length < w then valueError (lit "truncated")
  else .ok (ofBigEndian (r.take w), r.drop w)

def readBytes (n : Int) (r : Bytes) : Except PyExc (Bytes × Bytes) :=
  if n < 0 ∨ (r.length : Int) < n then valueError (lit "truncated")
  else .ok (r.take n.toNat, r.drop n.toNat)

def readArray32 (r : Bytes) : Except PyExc (Bytes × Bytes) := readBytes 32 r

def expectMagic (data magic : Bytes) : Except PyExc Unit :=
  orRaise (8 ≤ data.length ∧ data.take 8 = magic) (lit "bad magic")

/-- `r` is what the reader has left. -/
def rejectTrailing (r : Bytes) : Except PyExc Unit := orRaise (r = []) (lit "trailing bytes")

theorem ok_bind {α β : Type} (a : α) (f : α → Except PyExc β) : (Except.ok a >>= f) = f a := rfl

@[simp] theorem word_length (w : Nat) (n : Int) : (word w n).length = w := bigEndian_length w n.toNat

@[simp] theorem u8_length (n : Int) : (u8 n).length = 1 := rfl

theorem word_natCast {w n : Nat} (h : n < 256 ^ w) : Word w n := by
  refine ⟨Int.natCast_nonneg n, ?_⟩
  exact_mod_cast h

theorem toBytes_ok {w : Nat} {n : Int} {b : Bytes} : toBytes w n = .ok b ↔ Word w n ∧ b = word w n := by
  unfold toBytes
  split
  · rename_i h
    simp [h, eq_comm]
  · rename_i h
    simp [h]

theorem toBytes_pos {w : Nat} {n : Int} (h : Word w n) : toBytes w n = .ok (word w n) := if_pos h

theorem u8_eq {n : Int} (h : Word 1 n) : u8 n = word 1 n := by
  obtain ⟨hlow, hhigh⟩ := h
  have hmod : n % 256 = n := Int.emod_eq_of_lt hlow (by simpa using hhigh)
  simp [u8, word, bigEndian, hmod]

theorem bigEndian_stretch {w : Nat} {b : Bytes} (h : b.length = w) : bigEndian w (ofBigEndian b) = b := by
  subst h
  exact bigEndian_ofBigEndian b

theorem word_ofBigEndian {w : Nat} {b : Bytes} (h : b.length = w) : word w (ofBigEndian b) = b := by
  rw [word, Int.toNat_natCast, bigEndian_stretch h]

theorem ofBigEndian_word {w : Nat} {n : Int} (h : Word w n) : ((ofBigEndian (word w n) : Nat) : Int) = n := by
  obtain ⟨hlow, hhigh⟩ := h
  have hlt : n.toNat < 256 ^ w := by
    have hpow : ((256 ^ w : Nat) : Int) = 256 ^ w := by simp
    omega
  rw [word, ofBigEndian_bigEndian hlt, Int.toNat_of_nonneg hlow]

theorem word_of_length {w : Nat} {b : Bytes} (h : b.length = w) : Word w (ofBigEndian b) := by
  subst h
  exact word_natCast (ofBigEndian_lt b)

theorem readWord_reads (w : Nat) : Reads (Word w) (word w) (readWord w) := by
  intro r n rest
  unfold readWord
  constructor
  · intro hread
    split at hread
    · cases hread
    · rename_i hroom
      cases hread
      have hlength : (r.take w).length = w := by
        rw [List.length_take]
        omega
      exact ⟨word_of_length hlength, by rw [word_ofBigEndian hlength, List.take_append_drop]⟩
  · rintro ⟨h, rfl⟩
    have hroom : ¬(word w n ++ rest).length < w := by simp
    rw [if_neg hroom, List.take_left' (word_length w n), List.drop_left' (word_length w n), ofBigEndian_word h]

theorem readU8_reads : Reads (Word 1) u8 (readWord 1) := by
  intro r n rest
  rw [readWord_reads]
  constructor
  · rintro ⟨h, rfl⟩
    exact ⟨h, by rw [u8_eq h]⟩
  · rintro ⟨h, rfl⟩
    exact ⟨h, by rw [u8_eq h]⟩

theorem readBytes_reads (n : Int) :
    Reads (fun b : Bytes => (b.length : Int) = n) (fun b => b) (readBytes n) := by
  intro r b rest
  unfold readBytes
  constructor
  · intro hread
    split at hread
    · cases hread
    · rename_i hroom
      cases hread
      refine ⟨?_, (List.take_append_drop _ _).symm⟩
      simp only [List.length_take]
      omega
  · rintro ⟨hlength, rfl⟩
    have hnat : n.toNat = b.length := by omega
    have hroom : ¬(n < 0 ∨ ((b ++ rest).length : Int) < n) := by
      rw [List.length_append]
      omega
    rw [if_neg hroom, hnat, List.take_left' rfl, List.drop_left' rfl]

theorem readArray32_reads :
    Reads (fun b : Bytes => b.length = 32) (fun b => b) readArray32 := by
  intro r b rest
  rw [readArray32, readBytes_reads]
  constructor
  · rintro ⟨h, rfl⟩
    exact ⟨by omega, rfl⟩
  · rintro ⟨h, rfl⟩
    exact ⟨by omega, rfl⟩

theorem expectMagic_ok {data magic : Bytes} (hmagic : magic.length = 8) {u : Unit} :
    expectMagic data magic = .ok u ↔ data = magic ++ data.drop 8 := by
  unfold expectMagic
  rw [orRaise_ok]
  constructor
  · rintro ⟨-, htake⟩
    rw [← htake, List.take_append_drop]
  · intro hsplit
    have hlength := congrArg List.length hsplit
    rw [List.length_append, List.length_drop, hmagic] at hlength
    refine ⟨by omega, ?_⟩
    rw [hsplit, List.take_left' hmagic]

theorem expectMagic_append {magic : Bytes} (hmagic : magic.length = 8) (r : Bytes) :
    expectMagic (magic ++ r) magic = .ok () := by
  rw [expectMagic_ok hmagic, List.drop_left' hmagic]

theorem rejectTrailing_ok {r : Bytes} {u : Unit} : rejectTrailing r = .ok u ↔ r = [] := orRaise_ok

end Rdap.Braid
