import Mathlib.Data.Finset.Card
import Rdap.Lib.KeyedTable
import Rdap.Protocol.SigningSeparation

/-!
# The ledger of accepted messages

A message is accepted once for its place in the session and once for its digest, and the acknowledgement that
was kept for it is the one a duplicate gets.
-/

set_option autoImplicit false

namespace Rdap.Protocol.Ledger
open Python Lib Braid Identity

@[ext] structure AcceptKey where
  sessionId : Bytes
  dhPub : Bytes
  n : Int
  sckaEpoch : Int
  sckaCtr : Int
  deriving DecidableEq

def AcceptKey.packed (k : AcceptKey) : Except PyExc Bytes := do
  let n ← toBytes 4 k.n
  let epoch ← toBytes 4 k.sckaEpoch
  let ctr ← toBytes 4 k.sckaCtr
  return k.sessionId ++ k.dhPub ++ n ++ epoch ++ ctr

structure CommitLedger where
  acceptedKeys : Finset Bytes
  digestToAck : KeyedTable Bytes Bytes
  mutationCount : Nat

def CommitLedger.empty : CommitLedger := ⟨∅, .empty, 0⟩

inductive Outcome where
  | replayNoMutation
  | duplicateCommitted
  | accepted
  deriving DecidableEq

def commitAccept (ledger : CommitLedger) (key : AcceptKey) (objectDigest retainedAck : Bytes) :
    Except PyExc (CommitLedger × Outcome) := do
  let packed ← key.packed
  if packed ∈ ledger.acceptedKeys then return (ledger, .replayNoMutation)
  else if ledger.digestToAck.contains objectDigest = true then return (ledger, .duplicateCommitted)
  else
    return ({ acceptedKeys := insert packed ledger.acceptedKeys
              digestToAck := ledger.digestToAck.set objectDigest retainedAck
              mutationCount := ledger.mutationCount + 1 }, .accepted)

def duplicateAckExact (ledger : CommitLedger) (objectDigest : Bytes) : Option Bytes :=
  ledger.digestToAck.get? objectDigest

/-! ## Places -/

theorem packed_ok {k : AcceptKey} {out : Bytes} : k.packed = .ok out ↔ Word 4 k.n ∧ Word 4 k.sckaEpoch ∧
    Word 4 k.sckaCtr ∧ k.sessionId ++ k.dhPub ++ word 4 k.n ++ word 4 k.sckaEpoch ++ word 4 k.sckaCtr = out := by
  unfold AcceptKey.packed
  simp only [bind_ok, pure_ok, toBytes_ok]
  constructor
  · rintro ⟨_, ⟨hn, rfl⟩, _, ⟨hepoch, rfl⟩, _, ⟨hctr, rfl⟩, h⟩
    exact ⟨hn, hepoch, hctr, h⟩
  · rintro ⟨hn, hepoch, hctr, h⟩
    exact ⟨_, ⟨hn, rfl⟩, _, ⟨hepoch, rfl⟩, _, ⟨hctr, rfl⟩, h⟩

/-- The two identifiers are not framed: keys collide just when they run together to the same bytes. -/
theorem packed_same {k l : AcceptKey} {out : Bytes} (hk : k.packed = .ok out) (hl : l.packed = .ok out) :
    k.sessionId ++ k.dhPub = l.sessionId ++ l.dhPub ∧ k.n = l.n ∧ k.sckaEpoch = l.sckaEpoch ∧
      k.sckaCtr = l.sckaCtr := by
  obtain ⟨hn, hepoch, hctr, rfl⟩ := packed_ok.mp hk
  obtain ⟨hn', hepoch', hctr', h⟩ := packed_ok.mp hl
  obtain ⟨h, hctrs⟩ := List.append_inj' h (by rw [word_length, word_length])
  obtain ⟨h, hepochs⟩ := List.append_inj' h (by rw [word_length, word_length])
  obtain ⟨h, hns⟩ := List.append_inj' h (by rw [word_length, word_length])
  exact ⟨h.symm, (word_injective hn' hn hns).symm, (word_injective hepoch' hepoch hepochs).symm,
    (word_injective hctr' hctr hctrs).symm⟩

theorem packed_injective {k l : AcceptKey} {out : Bytes} (hwidth : k.sessionId.length = l.sessionId.length)
    (hk : k.packed = .ok out) (hl : l.packed = .ok out) : k = l := by
  obtain ⟨hids, hn, hepoch, hctr⟩ := packed_same hk hl
  obtain ⟨hsession, hdh⟩ := List.append_inj hids hwidth
  exact AcceptKey.ext hsession hdh hn hepoch hctr

/-! ## Runs -/

structure Offer where
  key : AcceptKey
  objectDigest : Bytes
  retainedAck : Bytes

/-- One message: the ledger after it, and the messages accepted so far. A key that cannot be packed raises
before the ledger is looked at. -/
def note (s : CommitLedger × List Offer) (o : Offer) : CommitLedger × List Offer :=
  match commitAccept s.1 o.key o.objectDigest o.retainedAck with
  | .ok (next, .accepted) => (next, s.2 ++ [o])
  | .ok (next, _) => (next, s.2)
  | .error _ => s

def run (offers : List Offer) : CommitLedger × List Offer := offers.foldl note (.empty, [])

theorem run_concat (offers : List Offer) (o : Offer) : run (offers ++ [o]) = note (run offers) o := by
  unfold run
  rw [List.foldl_append, List.foldl_cons, List.foldl_nil]

/-- Either nothing changes, and the place or the digest is known if the key can be packed, or both are new and
are written down. -/
theorem note_cases (s : CommitLedger × List Offer) (o : Offer) :
    (note s o = s ∧ ∀ packed, o.key.packed = .ok packed →
      packed ∈ s.1.acceptedKeys ∨ s.1.digestToAck.contains o.objectDigest = true) ∨
    ∃ packed, o.key.packed = .ok packed ∧ packed ∉ s.1.acceptedKeys ∧
      s.1.digestToAck.get? o.objectDigest = none ∧
      note s o = ({ acceptedKeys := insert packed s.1.acceptedKeys
                    digestToAck := s.1.digestToAck.set o.objectDigest o.retainedAck
                    mutationCount := s.1.mutationCount + 1 }, s.2 ++ [o]) := by
  cases hpacked : o.key.packed with
  | error e =>
    refine Or.inl ⟨?_, fun _ h => by cases h⟩
    rw [note, commitAccept, hpacked]
    rfl
  | ok packed =>
    by_cases hkey : packed ∈ s.1.acceptedKeys
    · refine Or.inl ⟨?_, fun x hx => Or.inl (Except.ok.inj hx ▸ hkey)⟩
      rw [note, commitAccept, hpacked, ok_bind, if_pos hkey]
      rfl
    · by_cases hdigest : s.1.digestToAck.contains o.objectDigest = true
      · refine Or.inl ⟨?_, fun _ _ => Or.inr hdigest⟩
        rw [note, commitAccept, hpacked, ok_bind, if_neg hkey, if_pos hdigest]
        rfl
      · refine Or.inr ⟨packed, rfl, hkey, ?_, ?_⟩
        · rw [KeyedTable.contains, Option.isSome_iff_ne_none, not_not] at hdigest
          exact hdigest
        · rw [note, commitAccept, hpacked, ok_bind, if_neg hkey, if_neg hdigest]
          rfl

/-- What the ledger knows of the messages it has accepted. -/
structure Holds (ledger : CommitLedger) (accepted : List Offer) : Prop where
  count : ledger.mutationCount = accepted.length
  card : ledger.acceptedKeys.card = accepted.length
  keys : ∀ x, x ∈ ledger.acceptedKeys ↔ ∃ o ∈ accepted, o.key.packed = .ok x
  acks : ∀ d ack, ledger.digestToAck.get? d = some ack ↔ ∃ o ∈ accepted, o.objectDigest = d ∧ o.retainedAck = ack
  packed : ∀ o ∈ accepted, ∃ x, o.key.packed = .ok x
  places : (accepted.map fun o => o.key.packed).Nodup
  digests : (accepted.map Offer.objectDigest).Nodup

theorem holds_empty : Holds .empty [] where
  count := rfl
  card := rfl
  keys x := by simp [CommitLedger.empty]
  acks d ack := by simp [CommitLedger.empty]
  packed o ho := absurd ho List.not_mem_nil
  places := List.nodup_nil
  digests := List.nodup_nil

theorem Holds.accept {ledger : CommitLedger} {accepted : List Offer} {o : Offer} {packed : Bytes}
    (h : Holds ledger accepted) (hpacked : o.key.packed = .ok packed) (hkey : packed ∉ ledger.acceptedKeys)
    (hdigest : ledger.digestToAck.get? o.objectDigest = none) :
    Holds { acceptedKeys := insert packed ledger.acceptedKeys
            digestToAck := ledger.digestToAck.set o.objectDigest o.retainedAck
            mutationCount := ledger.mutationCount + 1 } (accepted ++ [o]) where
  count := by rw [List.length_append, ← h.count]; rfl
  card := by rw [Finset.card_insert_of_notMem hkey, h.card, List.length_append]; rfl
  keys x := by
    rw [Finset.mem_insert, h.keys]
    simp only [List.mem_append, List.mem_singleton, or_and_right, exists_or, exists_eq_left, hpacked,
      Except.ok.injEq]
    rw [or_comm, eq_comm]
  acks d ack := by
    rw [KeyedTable.get?_set]
    simp only [List.mem_append, List.mem_singleton, or_and_right, exists_or, exists_eq_left]
    by_cases hd : d = o.objectDigest
    · rw [if_pos hd, Option.some.injEq]
      constructor
      · exact fun hack => Or.inr ⟨hd.symm, hack⟩
      · rintro (hold | ⟨-, hack⟩)
        · rw [← h.acks, hd, hdigest] at hold
          cases hold
        · exact hack
    · rw [if_neg hd, h.acks]
      constructor
      · exact Or.inl
      · rintro (hold | ⟨hnew, -⟩)
        · exact hold
        · exact absurd hnew.symm hd
  packed a ha := by
    rcases List.mem_append.mp ha with hold | hnew
    · exact h.packed a hold
    · rw [List.mem_singleton.mp hnew]
      exact ⟨packed, hpacked⟩
  places := by
    rw [List.map_append, List.nodup_append]
    refine ⟨h.places, List.nodup_singleton _, ?_⟩
    rintro x hx y hy rfl
    obtain ⟨a, ha, hsame⟩ := List.mem_map.mp hx
    rw [List.map_singleton, List.mem_singleton, hpacked] at hy
    exact hkey ((h.keys packed).mpr ⟨a, ha, hsame.trans hy⟩)
  digests := by
    rw [List.map_append, List.nodup_append]
    refine ⟨h.digests, List.nodup_singleton _, ?_⟩
    rintro x hx y hy rfl
    obtain ⟨a, ha, rfl⟩ := List.mem_map.mp hx
    rw [List.map_singleton, List.mem_singleton] at hy
    have hfound := (h.acks a.objectDigest a.retainedAck).mpr ⟨a, ha, rfl, rfl⟩
    rw [hy, hdigest] at hfound
    cases hfound

theorem holds_note {s : CommitLedger × List Offer} (h : Holds s.1 s.2) (o : Offer) :
    Holds (note s o).1 (note s o).2 := by
  rcases note_cases s o with ⟨hsame, -⟩ | ⟨packed, hpacked, hkey, hdigest, hnext⟩
  · rw [hsame]
    exact h
  · rw [hnext]
    exact h.accept hpacked hkey hdigest

theorem holds_run (offers : List Offer) : Holds (run offers).1 (run offers).2 := by
  induction offers using List.reverseRecOn with
  | nil => exact holds_empty
  | append_singleton before o ih =>
    rw [run_concat]
    exact holds_note ih o

theorem accepted_kept (s : CommitLedger × List Offer) (o : Offer) : s.2 <+: (note s o).2 := by
  rcases note_cases s o with ⟨hsame, -⟩ | ⟨packed, -, -, -, hnext⟩
  · rw [hsame]
  · rw [hnext]
    exact List.prefix_append _ _

/-- Every message whose key can be packed was accepted, or one at its place or with its digest was. -/
theorem settled_run (offers : List Offer) : ∀ o ∈ offers, ∀ packed, o.key.packed = .ok packed →
    ∃ a ∈ (run offers).2, a.key.packed = .ok packed ∨ a.objectDigest = o.objectDigest := by
  induction offers using List.reverseRecOn with
  | nil => exact fun o ho => absurd ho List.not_mem_nil
  | append_singleton before last ih =>
    intro o ho packed hpacked
    rw [run_concat]
    rcases List.mem_append.mp ho with hold | hnew
    · obtain ⟨a, ha, hsame⟩ := ih o hold packed hpacked
      exact ⟨a, (accepted_kept (run before) last).subset ha, hsame⟩
    · obtain rfl := List.mem_singleton.mp hnew
      rcases note_cases (run before) o with ⟨hsame, hknown⟩ | ⟨_, -, -, -, hnext⟩
      · rw [hsame]
        rcases hknown packed hpacked with hkey | hdigest
        · obtain ⟨a, ha, hplace⟩ := ((holds_run before).keys packed).mp hkey
          exact ⟨a, ha, Or.inl hplace⟩
        · obtain ⟨ack, hack⟩ := Option.isSome_iff_exists.mp hdigest
          obtain ⟨a, ha, hdigests, -⟩ := ((holds_run before).acks _ _).mp hack
          exact ⟨a, ha, Or.inr hdigests⟩
      · rw [hnext]
        exact ⟨o, List.mem_append_right _ (List.mem_singleton_self _), Or.inl hpacked⟩

theorem accepted_sublist (offers : List Offer) : List.Sublist (run offers).2 offers := by
  induction offers using List.reverseRecOn with
  | nil => exact .refl _
  | append_singleton before o ih =>
    rw [run_concat]
    rcases note_cases (run before) o with ⟨hsame, -⟩ | ⟨_, -, -, -, hnext⟩
    · rw [hsame]
      exact ih.trans (List.sublist_append_left _ _)
    · rw [hnext]
      exact ih.append (.refl _)

/-- However messages are repeated and reordered, no place and no digest is accepted twice, the count of
mutations is that of the accepted messages, the set of keys holds just their places, a duplicate gets the
acknowledgement that was kept for its digest, for good, and a message is passed over only if one at its place or
with its digest was accepted. -/
theorem ledger_runs (offers later : List Offer) :
    List.Sublist (run offers).2 offers ∧
    ((run offers).2.map fun o => o.key.packed).Nodup ∧ ((run offers).2.map Offer.objectDigest).Nodup ∧
    (run offers).1.mutationCount = (run offers).2.length ∧
    (run offers).1.acceptedKeys.card = (run offers).2.length ∧
    (∀ x, x ∈ (run offers).1.acceptedKeys ↔ ∃ o ∈ (run offers).2, o.key.packed = .ok x) ∧
    (∀ d ack, duplicateAckExact (run offers).1 d = some ack ↔
      ∃ o ∈ (run offers).2, o.objectDigest = d ∧ o.retainedAck = ack) ∧
    (∀ d ack, duplicateAckExact (run offers).1 d = some ack →
      duplicateAckExact (run (offers ++ later)).1 d = some ack) ∧
    ((∀ o ∈ offers, o.key.sessionId.length = 32) → ∀ o ∈ offers, ∀ packed, o.key.packed = .ok packed →
      ∃ a ∈ (run offers).2, a.key = o.key ∨ a.objectDigest = o.objectDigest) := by
  have hsublist := accepted_sublist offers
  have hkept : (run offers).2 <+: (run (offers ++ later)).2 := by
    induction later using List.reverseRecOn with
    | nil => rw [List.append_nil]
    | append_singleton before o ih =>
      rw [← List.append_assoc, run_concat]
      exact ih.trans (accepted_kept _ o)
  have hholds := holds_run offers
  refine ⟨hsublist, hholds.places, hholds.digests, hholds.count, hholds.card, hholds.keys,
    hholds.acks, ?_, ?_⟩
  · intro d ack hack
    obtain ⟨o, ho, hsame⟩ := (hholds.acks d ack).mp hack
    exact ((holds_run (offers ++ later)).acks d ack).mpr ⟨o, hkept.subset ho, hsame⟩
  · intro hwidths o ho packed hpacked
    obtain ⟨a, ha, hsame⟩ := settled_run offers o ho packed hpacked
    refine ⟨a, ha, hsame.imp_left fun hplace => ?_⟩
    exact packed_injective ((hwidths a (hsublist.subset ha)).trans (hwidths o ho).symm) hplace hpacked

end Rdap.Protocol.Ledger
