import Rdap.Braid.WireReader
import Rdap.Identity.Signing
import Rdap.Protocol.Hmac

/-!
# Routing counters

A routing tag covers the index of its message, the type and the direction in a counter of eight bytes.
The indexed session profile takes indices of 32 bits; the second scheme keeps 64 bits of the index and
shifts them by eight more.
-/

set_option autoImplicit false

namespace Rdap.Protocol
open Python Lib Braid Identity

variable (P : Platform)

/-! ## The indexed session profile -/

def labelRouteMaster : Bytes := asciiBytes (lit "ATSAM/v1/GhostRoute/recipient-tag")

def labelRouteDirection : Bytes := asciiBytes (lit "ATSAM/v1/GhostRoute/rvn1-direction")

def routeLabel : Bytes := asciiBytes (lit "rvn1/route")

def routeMasterKey (root : Bytes) : Except PyExc Bytes := do
  orRaise (root.length = 32) (lit "K_root must be exactly 32 bytes")
  return hkdfSha256 P root [] labelRouteMaster 32

def routeDirectionKey (root : Bytes) (direction : Int) : Except PyExc Bytes := do
  orRaise (direction = 0 ∨ direction = 1) (lit "direction must be 0 or 1")
  let master ← routeMasterKey P root
  return hkdfSha256 P master [] (labelRouteDirection ++ [0] ++ [UInt8.ofNat direction.toNat]) 32

/-- The epoch and the counter. -/
def routeCoordinates (createdAtMs index envType direction : Int) : Except PyExc (Int × Nat) := do
  orRaise (0 ≤ createdAtMs ∧ createdAtMs ≤ 0xFFFFFFFFFFFFFFFF) (lit "created_at_ms must fit u64")
  orRaise (0 ≤ index ∧ index ≤ 0xFFFFFFFF) (lit "index must fit u32")
  orRaise (envType ∈ [1, 2, 3, 4]) (lit "env_type must be 1 through 4")
  orRaise (direction = 0 ∨ direction = 1) (lit "direction must be 0 or 1")
  return (createdAtMs / 1000,
    (index.toNat <<< 3) ||| ((envType - 1).toNat <<< 1) ||| direction.toNat)

/-- `routing_tag.derive` -/
def deriveTag (kRoute : Bytes) (epoch : Int) (counter : Nat) : Except PyExc Bytes := do
  let epoch ← toBytes 8 epoch
  let counter ← toBytes 8 counter
  return (hmacSha256 P kRoute (routeLabel ++ epoch ++ counter)).take 16

def deriveRouteTag (root : Bytes) (createdAtMs index envType direction : Int) : Except PyExc Bytes := do
  let (epoch, counter) ← routeCoordinates createdAtMs index envType direction
  let key ← routeDirectionKey P root direction
  deriveTag P key epoch counter

/-! ## The second scheme -/

def routeTagDomain : Bytes := asciiBytes (lit "ATSAM/v2/route")

/-- `n & (2 ** w - 1)` -/
def lowBits (w : Nat) (n : Int) : Nat := (n % 2 ^ w).toNat

/-- The counter that `routing_tag` packs. -/
def routingCounter (n appType direction : Int) : Nat :=
  (lowBits 64 n <<< 8) ||| (lowBits 7 appType <<< 1) ||| lowBits 1 direction

def routingTag (kRouteD : Bytes) (createdAtMs n appType direction : Int) (sessionId : Bytes) :
    Except PyExc Bytes := do
  let epoch ← toBytes 8 (createdAtMs / 1000)
  let counter ← toBytes 8 (routingCounter n appType direction)
  return (hmacSha256 P kRouteD (routeTagDomain ++ epoch ++ counter ++ sessionId)).take 16

variable {P}

/-! ## The packed numbers -/

theorem packed_eq {w n t d : Nat} (hd : d < 2) (ht : t * 2 + d < 2 ^ w) :
    (n <<< w) ||| (t <<< 1) ||| d = n * 2 ^ w + (t * 2 + d) := by
  have hlow : (t <<< 1) ||| d = t * 2 + d := by
    rw [← Nat.shiftLeft_add_eq_or_of_lt hd, Nat.shiftLeft_eq, Nat.pow_one]
  rw [Nat.or_assoc, hlow, ← Nat.shiftLeft_add_eq_or_of_lt ht, Nat.shiftLeft_eq]

theorem lowBits_lt (w : Nat) (n : Int) : lowBits w n < 2 ^ w := by
  have hpos : (0 : Int) < 2 ^ w := by positivity
  have hlow := Int.emod_nonneg n (Int.ne_of_gt hpos)
  have hhigh := Int.emod_lt_of_pos n hpos
  unfold lowBits
  zify
  rw [Int.toNat_of_nonneg hlow]
  exact hhigh

theorem routingCounter_eq (n appType direction : Int) : routingCounter n appType direction =
    lowBits 64 n * 2 ^ 8 + (lowBits 7 appType * 2 + lowBits 1 direction) := by
  have htype := lowBits_lt 7 appType
  have hdirection := lowBits_lt 1 direction
  exact packed_eq (by omega) (by omega)

/-- The counter of the indexed session profile, for what it admits. -/
theorem routeCoordinates_ok {createdAtMs index envType direction : Int} {out : Int × Nat} :
    routeCoordinates createdAtMs index envType direction = .ok out ↔
      (0 ≤ createdAtMs ∧ createdAtMs < 2 ^ 64) ∧ (0 ≤ index ∧ index < 2 ^ 32) ∧
        (1 ≤ envType ∧ envType ≤ 4) ∧ (0 ≤ direction ∧ direction ≤ 1) ∧
        out = (createdAtMs / 1000,
          index.toNat * 2 ^ 3 + ((envType - 1).toNat * 2 + direction.toNat)) := by
  unfold routeCoordinates
  simp only [bind_ok, pure_ok, orRaise_ok, exists_const]
  constructor
  · rintro ⟨hclock, hindex, htype, hdirection, rfl⟩
    have htypes : 1 ≤ envType ∧ envType ≤ 4 := by
      simp only [List.mem_cons, List.not_mem_nil, or_false] at htype
      omega
    refine ⟨by omega, by omega, htypes, by omega, ?_⟩
    rw [packed_eq (by omega) (by omega)]
  · rintro ⟨hclock, hindex, htype, hdirection, rfl⟩
    refine ⟨by omega, by omega, ?_, by omega, ?_⟩
    · simp only [List.mem_cons, List.not_mem_nil, or_false]
      omega
    · rw [packed_eq (by omega) (by omega)]

/-- The counter of the second scheme has eight bytes if the index that is kept has seven. -/
theorem routingCounter_word (n appType direction : Int) :
    Word 8 (routingCounter n appType direction) ↔ lowBits 64 n < 2 ^ 56 := by
  have htype := lowBits_lt 7 appType
  have hdirection := lowBits_lt 1 direction
  rw [routingCounter_eq]
  unfold Word
  omega

theorem epoch_word {createdAtMs : Int} (h : 0 ≤ createdAtMs ∧ createdAtMs < 2 ^ 64) :
    Word 8 (createdAtMs / 1000) := by
  unfold Word
  omega

theorem routingTag_defined {kRouteD sessionId : Bytes} {createdAtMs n appType direction : Int}
    (hclock : 0 ≤ createdAtMs ∧ createdAtMs < 2 ^ 64) :
    (∃ tag, routingTag P kRouteD createdAtMs n appType direction sessionId = .ok tag) ↔
      lowBits 64 n < 2 ^ 56 := by
  have hepoch := epoch_word hclock
  rw [← routingCounter_word n appType direction]
  unfold routingTag
  simp only [bind_ok, pure_ok, toBytes_ok]
  constructor
  · rintro ⟨_, _, _, _, ⟨hcounter, _⟩, _⟩
    exact hcounter
  · intro hcounter
    exact ⟨_, _, ⟨hepoch, rfl⟩, _, ⟨hcounter, rfl⟩, rfl⟩

/-! ## Collisions -/

/-- What a counter is packed from. -/
structure Route where
  index : Int
  type : Int
  direction : Int
  deriving DecidableEq

/-- An index of 32 bits and a registered type. -/
structure Route.Indexed (r : Route) : Prop where
  index : 0 ≤ r.index ∧ r.index < 2 ^ 32
  type : 1 ≤ r.type ∧ r.type ≤ 4
  direction : r.direction = 0 ∨ r.direction = 1

/-- An index of 64 bits, of any type. -/
structure Route.Masked (r : Route) : Prop where
  index : 0 ≤ r.index ∧ r.index < 2 ^ 64
  direction : r.direction = 0 ∨ r.direction = 1

def Route.coordinates (r : Route) (createdAtMs : Int) : Except PyExc (Int × Nat) :=
  routeCoordinates createdAtMs r.index r.type r.direction

def Route.counter (r : Route) : Nat := routingCounter r.index r.type r.direction

/-- The tags of both routes are derived, and their counters differ if they do. -/
structure IndexedSound (P : Platform) (root : Bytes) (createdAtMs : Int) (a b : Route) : Prop where
  fits : ∀ r ∈ [a, b], ∃ tag, deriveRouteTag P root createdAtMs r.index r.type r.direction = .ok tag
  apart : a.coordinates createdAtMs = b.coordinates createdAtMs → a = b

structure MaskedSound (P : Platform) (kRouteD sessionId : Bytes) (createdAtMs : Int) (a b : Route) :
    Prop where
  fits : ∀ r ∈ [a, b], ∃ tag,
    routingTag P kRouteD createdAtMs r.index r.type r.direction sessionId = .ok tag
  apart : a.counter = b.counter → a = b

/-- The index has seven bytes. -/
def Route.Short (r : Route) : Prop := r.index < 2 ^ 56

instance Route.decidableShort (r : Route) : Decidable r.Short := inferInstanceAs (Decidable (r.index < 2 ^ 56))

/-- Different types that have the same low seven bits, in routes that agree otherwise. -/
def Aliased (a b : Route) : Prop :=
  a.index = b.index ∧ a.direction = b.direction ∧ a.type ≠ b.type ∧ a.type % 128 = b.type % 128

instance decidableAliased (a b : Route) : Decidable (Aliased a b) :=
  inferInstanceAs (Decidable (a.index = b.index ∧ a.direction = b.direction ∧ a.type ≠ b.type ∧
    a.type % 128 = b.type % 128))

theorem Route.Indexed.coordinates_eq {r : Route} (h : r.Indexed) {createdAtMs : Int}
    (hclock : 0 ≤ createdAtMs ∧ createdAtMs < 2 ^ 64) :
    r.coordinates createdAtMs = .ok (createdAtMs / 1000,
      r.index.toNat * 2 ^ 3 + ((r.type - 1).toNat * 2 + r.direction.toNat)) := by
  have hdirection : 0 ≤ r.direction ∧ r.direction ≤ 1 := by
    rcases h.direction with hd | hd <;> simp [hd]
  unfold Route.coordinates
  rw [routeCoordinates_ok]
  exact ⟨hclock, h.index, h.type, hdirection, rfl⟩

theorem Route.Indexed.counter_word {r : Route} (h : r.Indexed) :
    Word 8 ((r.index.toNat * 2 ^ 3 + ((r.type - 1).toNat * 2 + r.direction.toNat) : Nat) : Int) := by
  obtain ⟨hindex, htype, hdirection⟩ := h
  apply word_natCast
  omega

theorem deriveTag_defined (kRoute : Bytes) {epoch : Int} {counter : Nat} (hepoch : Word 8 epoch)
    (hcounter : Word 8 (counter : Int)) : ∃ tag, deriveTag P kRoute epoch counter = .ok tag := by
  unfold deriveTag
  simp only [bind_ok, pure_ok, toBytes_ok]
  exact ⟨_, _, ⟨hepoch, rfl⟩, _, ⟨hcounter, rfl⟩, rfl⟩

theorem routeDirectionKey_defined {root : Bytes} {direction : Int} (hroot : root.length = 32)
    (h : direction = 0 ∨ direction = 1) : ∃ key, routeDirectionKey P root direction = .ok key := by
  unfold routeDirectionKey routeMasterKey
  simp only [bind_ok, pure_ok, orRaise_ok]
  exact ⟨_, (), h, _, ⟨(), hroot, rfl⟩, rfl⟩

theorem deriveRouteTag_defined {root : Bytes} {createdAtMs : Int} {r : Route} (hroot : root.length = 32)
    (hclock : 0 ≤ createdAtMs ∧ createdAtMs < 2 ^ 64) (h : r.Indexed) :
    ∃ tag, deriveRouteTag P root createdAtMs r.index r.type r.direction = .ok tag := by
  obtain ⟨key, hkey⟩ := routeDirectionKey_defined (P := P) hroot h.direction
  obtain ⟨tag, htag⟩ := deriveTag_defined (P := P) key (epoch_word hclock) h.counter_word
  refine ⟨tag, ?_⟩
  unfold deriveRouteTag
  simp only [bind_ok]
  exact ⟨_, h.coordinates_eq hclock, key, hkey, htag⟩

theorem Route.Indexed.eq_of_counter {a b : Route} (ha : a.Indexed) (hb : b.Indexed)
    (h : a.index.toNat * 2 ^ 3 + ((a.type - 1).toNat * 2 + a.direction.toNat) =
      b.index.toNat * 2 ^ 3 + ((b.type - 1).toNat * 2 + b.direction.toNat)) : a = b := by
  obtain ⟨haindex, hatype, hadirection⟩ := ha
  obtain ⟨hbindex, hbtype, hbdirection⟩ := hb
  cases a
  cases b
  simp only [Route.mk.injEq] at *
  omega

/-- The counters of the indexed session profile fit and do not collide. -/
theorem indexed_sound {root : Bytes} {createdAtMs : Int} {a b : Route} (hroot : root.length = 32)
    (hclock : 0 ≤ createdAtMs ∧ createdAtMs < 2 ^ 64) (ha : a.Indexed) (hb : b.Indexed) :
    IndexedSound P root createdAtMs a b := by
  refine ⟨?_, ?_⟩
  · intro r hr
    rcases List.mem_cons.mp hr with rfl | hr
    · exact deriveRouteTag_defined hroot hclock ha
    · obtain rfl := List.mem_singleton.mp hr
      exact deriveRouteTag_defined hroot hclock hb
  · intro hsame
    rw [ha.coordinates_eq hclock, hb.coordinates_eq hclock, Except.ok.injEq, Prod.mk.injEq] at hsame
    exact ha.eq_of_counter hb hsame.2

theorem counter_eq_iff {a b : Route} (ha : a.Masked) (hb : b.Masked) :
    a.counter = b.counter ↔
      a.index = b.index ∧ a.direction = b.direction ∧ a.type % 128 = b.type % 128 := by
  obtain ⟨haindex, hadirection⟩ := ha
  obtain ⟨hbindex, hbdirection⟩ := hb
  unfold Route.counter
  rw [routingCounter_eq, routingCounter_eq]
  unfold lowBits
  omega

/-- The counters of the second scheme run out of their eight bytes, and types are told apart by seven
bits. -/
theorem counters_sound_iff {root kRouteD sessionId : Bytes} {createdAtMs : Int} {a b c d : Route}
    (hroot : root.length = 32) (hclock : 0 ≤ createdAtMs ∧ createdAtMs < 2 ^ 64)
    (ha : a.Indexed) (hb : b.Indexed) (hc : c.Masked) (hd : d.Masked) :
    IndexedSound P root createdAtMs a b ∧ MaskedSound P kRouteD sessionId createdAtMs c d ↔
      c.Short ∧ d.Short ∧ ¬ Aliased c d := by
  have hlow : ∀ r : Route, r.Masked → (lowBits 64 r.index < 2 ^ 56 ↔ r.Short) := by
    intro r hr
    have hindex := hr.index
    unfold lowBits Route.Short
    omega
  have happart : (c.counter = d.counter → c = d) ↔ ¬ Aliased c d := by
    rw [counter_eq_iff hc hd]
    cases c
    cases d
    simp only [Aliased, Route.mk.injEq]
    omega
  constructor
  · rintro ⟨-, hfits, hcollide⟩
    refine ⟨?_, ?_, happart.mp hcollide⟩
    · exact (hlow c hc).mp ((routingTag_defined hclock).mp (hfits c List.mem_cons_self))
    · exact (hlow d hd).mp ((routingTag_defined hclock).mp (hfits d (by simp)))
  · rintro ⟨hcshort, hdshort, halias⟩
    refine ⟨indexed_sound hroot hclock ha hb, ?_, happart.mpr halias⟩
    intro r hr
    apply (routingTag_defined hclock).mpr
    rcases List.mem_cons.mp hr with rfl | hr
    · exact (hlow r hc).mpr hcshort
    · obtain rfl := List.mem_singleton.mp hr
      exact (hlow r hd).mpr hdshort

theorem small_counters_sound :
    IndexedSound (Platform.ofTable []) (List.replicate 32 7) 5000 ⟨0, 1, 0⟩ ⟨0, 1, 1⟩ ∧
      MaskedSound (Platform.ofTable []) (List.replicate 32 7) [] 5000 ⟨1, 2, 0⟩ ⟨2 ^ 56 - 1, 2, 0⟩ := by
  refine (counters_sound_iff (by decide) (by decide) ?_ ?_ ?_ ?_).mpr (by decide)
  · exact ⟨by decide, by decide, by decide⟩
  · exact ⟨by decide, by decide, by decide⟩
  · exact ⟨by decide, by decide⟩
  · exact ⟨by decide, by decide⟩

/-- An index of eight bytes has no tag. -/
theorem long_index_raises : (⟨2 ^ 56, 2, 0⟩ : Route).Masked ∧
    ¬ MaskedSound (Platform.ofTable []) (List.replicate 32 7) [] 5000 ⟨2 ^ 56, 2, 0⟩ ⟨2 ^ 56, 2, 0⟩ := by
  refine ⟨⟨by decide, by decide⟩, ?_⟩
  intro h
  obtain ⟨tag, htag⟩ := h.fits ⟨2 ^ 56, 2, 0⟩ List.mem_cons_self
  have hshort := (routingTag_defined (by decide)).mp ⟨tag, htag⟩
  revert hshort
  decide

end Rdap.Protocol
