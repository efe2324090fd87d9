import Rdap.Relay.ReplyChecks

/-!
# A whole `take_replies`

A turn leaves the cache alone and takes a file from the slot only when it does not verify or
was acknowledged. So does a call, wherever it ends, and one that meets no poisoned file runs
through and returns whatever verifies and is not recorded.
-/

set_option autoImplicit false

namespace Rdap.Relay
open Python Protocol Lib Identity Agent

variable {P : Platform} {nameLimit : Nat} {node : RelayNode} {glances : SlotFile → Glance}
  {file : SlotFile} {box s t u : ReplyBox}

/-! ## One turn -/

/-- The turns of `take_replies` do not write to the cache. -/
structure SameCache (s t : ReplyBox) : Prop where
  clock : t.clock = s.clock
  ledger : t.ledger = s.ledger
  given : t.given = s.given
  acknowledged : t.acknowledged = s.acknowledged

theorem SameCache.refl (s : ReplyBox) : SameCache s s := ⟨rfl, rfl, rfl, rfl⟩

theorem SameCache.trans (h : SameCache s t) (h' : SameCache t u) : SameCache s u :=
  ⟨h'.clock.trans h.clock, h'.ledger.trans h.ledger, h'.given.trans h.given,
    h'.acknowledged.trans h.acknowledged⟩

theorem takeTurn_sameCache : SameCache box (takeTurn P nameLimit node glances file box).2 := by
  have h := takeTurn_cases (P := P) nameLimit node glances file box
  cases hresult : takeTurn P nameLimit node glances file box with
  | mk result box' =>
    rw [hresult] at h
    cases h <;> exact ⟨rfl, rfl, rfl, rfl⟩

/-- Nothing that was accepted is lost. -/
theorem takeTurn_accepted : box.accepted ⊆ (takeTurn P nameLimit node glances file box).2.accepted := by
  have h := takeTurn_cases (P := P) nameLimit node glances file box
  cases hresult : takeTurn P nameLimit node glances file box with
  | mk result box' =>
    rw [hresult] at h
    cases h with
    | accepted => exact List.subset_append_left _ _
    | refused => exact List.Subset.refl _
    | raised => exact List.Subset.refl _
    | removed => exact List.Subset.refl _

theorem quarantine_slot (turn : Turn) (reason : PyStr) (home : RelayHome) :
    (quarantine P nameLimit turn file reason home).2.slot = home.slot ∨
      (quarantine P nameLimit turn file reason home).2.slot = home.slot.erase file.1 := by
  unfold quarantine
  dsimp only
  split
  · exact Or.inr rfl
  · split
    · exact Or.inl rfl
    · split
      · exact Or.inr rfl
      · exact Or.inr rfl

/-- What the removal of a file needs. -/
def Excused (P : Platform) (node : RelayNode) (glances : SlotFile → Glance) (db : Ledger)
    (file : SlotFile) : Prop :=
  ¬ Verifies P node (glances file) file ∨
    ∃ key, replyKey P (readEnvelope P file) = some key ∧ Recorded (glances file).seenAt key db

theorem takeTurn_slot (nameLimit : Nat) (node : RelayNode) (glances : SlotFile → Glance)
    (file : SlotFile) (box : ReplyBox) :
    (takeTurn P nameLimit node glances file box).2.home.slot = box.home.slot ∨
      Excused P node glances box.ledger file ∧
        (takeTurn P nameLimit node glances file box).2.home.slot = box.home.slot.erase file.1 := by
  have h := takeTurn_cases (P := P) nameLimit node glances file box
  cases hresult : takeTurn P nameLimit node glances file box with
  | mk result box' =>
    rw [hresult] at h
    cases h with
    | refused reason hverifies =>
      exact (quarantine_slot (P := P) _ reason box.home).imp_right fun h => ⟨Or.inl hverifies, h⟩
    | raised => exact Or.inl rfl
    | removed key hkey hseen => exact Or.inr ⟨Or.inr ⟨key, hkey, hseen⟩, rfl⟩
    | accepted => exact Or.inl rfl

/-- The reply of a file that was accepted. -/
structure Accepts (P : Platform) (glances : SlotFile → Glance) (db : Ledger) (file : SlotFile)
    (reply : Dict) : Prop where
  made : reply = verifiedReply P file
  signed : ∃ metadata signature, SignedBy P (readEnvelope P file) metadata signature
  unrecorded : ∀ key, replyKey P reply = some key → ¬ Recorded (glances file).seenAt key db

theorem takeTurn_accepts {reply : Dict}
    (h : reply ∈ (takeTurn P nameLimit node glances file box).2.accepted) :
    reply ∈ box.accepted ∨ Accepts P glances box.ledger file reply := by
  have hcases := takeTurn_cases (P := P) nameLimit node glances file box
  cases hresult : takeTurn P nameLimit node glances file box with
  | mk result box' =>
    rw [hresult] at hcases h
    cases hcases with
    | refused => exact Or.inl h
    | raised => exact Or.inl h
    | removed => exact Or.inl h
    | accepted key metadata signature hsigned hkey hnew =>
      rcases List.mem_append.mp h with h | h
      · exact Or.inl h
      · obtain rfl := List.mem_singleton.mp h
        refine Or.inr ⟨rfl, ⟨metadata, signature, hsigned⟩, fun other hother => ?_⟩
        rw [verifiedReply_key, hkey] at hother
        obtain rfl := Option.some.inj hother
        exact hnew

/-- A file that verifies and is not recorded is accepted. -/
theorem takeTurn_pending (hverifies : Verifies P node (glances file) file)
    (hnew : ∀ key, replyKey P (readEnvelope P file) = some key →
      ¬ Recorded (glances file).seenAt key box.ledger) :
    verifiedReply P file ∈ (takeTurn P nameLimit node glances file box).2.accepted := by
  have h := takeTurn_cases (P := P) nameLimit node glances file box
  cases hresult : takeTurn P nameLimit node glances file box with
  | mk result box' =>
    rw [hresult] at h
    cases h with
    | refused reason hrefused => exact absurd hverifies hrefused
    | raised e _ hraised =>
      obtain ⟨_, signature, hcheck⟩ := hverifies
      obtain ⟨e', he⟩ := hraised
      rw [hcheck] at he
      cases he
    | removed key hkey hseen => exact absurd hseen (hnew key hkey)
    | accepted => exact List.mem_append_right _ List.mem_cons_self

/-! ## The files of a call -/

/-- The names that `take_replies` looks at. -/
def jsonFiles (slot : KeyedTable PyStr Bytes) : List SlotFile :=
  slot.rows.filter fun file => (lit ".json").isSuffixOf file.1

theorem candidates_mem {slot : KeyedTable PyStr Bytes} (h : file ∈ candidates slot) :
    file ∈ slot.rows := by
  have hfiltered := List.mem_of_mem_take h
  exact (List.mem_insertionSort _).mp (List.mem_filter.mp hfiltered).1

/-- With no more files than a poll takes all of them are candidates. -/
theorem mem_candidates {slot : KeyedTable PyStr Bytes}
    (hfew : (jsonFiles slot).length ≤ maxRelayFilesPerPoll) (hmem : file ∈ slot.rows)
    (hname : (lit ".json").isSuffixOf file.1 = true) : file ∈ candidates slot := by
  have hperm := (List.perm_insertionSort (fun a b : SlotFile => a.1 ≤ b.1) slot.rows).filter
    fun file => (lit ".json").isSuffixOf file.1
  unfold candidates
  rw [List.take_of_length_le (by rw [hperm.length_eq]; exact hfew)]
  exact List.mem_filter.mpr ⟨(List.mem_insertionSort _).mpr hmem, hname⟩

/-! ## The loop -/

/-- What is true behind the turns for some candidates of a slot. -/
structure Taken (P : Platform) (node : RelayNode) (glances : SlotFile → Glance) (start box : ReplyBox) :
    Prop where
  cache : SameCache start box
  slot : ∀ file ∈ start.home.slot.rows, file ∈ box.home.slot.rows ∨
    Excused P node glances start.ledger file
  accepted : ∀ reply ∈ box.accepted, ∃ file ∈ candidates start.home.slot,
    Accepts P glances start.ledger file reply

theorem takeTurn_taken {start : ReplyBox} (hfile : file ∈ candidates start.home.slot)
    (h : Taken P node glances start box) :
    Taken P node glances start (takeTurn P nameLimit node glances file box).2 where
  cache := h.cache.trans takeTurn_sameCache
  slot other hother := by
    rcases h.slot other hother with hkept | hexcused
    · rcases takeTurn_slot (P := P) nameLimit node glances file box with
        hslot | ⟨hexcused, hslot⟩
      · exact Or.inl (hslot ▸ hkept)
      · by_cases hname : other.1 = file.1
        · obtain ⟨name, content⟩ := other
          obtain rfl : name = file.1 := hname
          obtain rfl := start.home.slot.row_unique hother (candidates_mem hfile)
          rw [h.cache.ledger] at hexcused
          exact Or.inr hexcused
        · left
          rw [hslot]
          exact List.mem_filter.mpr ⟨hkept, by simpa using hname⟩
    · exact Or.inr hexcused
  accepted reply hreply := by
    rcases takeTurn_accepts hreply with hold | hnew
    · exact h.accepted reply hold
    · exact ⟨file, hfile, h.cache.ledger ▸ hnew⟩

theorem takeOver_taken (nameLimit : Nat) (node : RelayNode) (glances : SlotFile → Glance)
    {files : List SlotFile} (hfiles : files ⊆ candidates box.home.slot) :
    (maxRelayDirectoryEntries < box.home.slot.count ∧
      (takeOver P nameLimit node glances files box).2 = box) ∨
    Taken P node glances box (takeOver P nameLimit node glances files box).2 := by
  unfold takeOver
  split
  · rename_i hlarge
    exact Or.inl ⟨hlarge, rfl⟩
  · right
    have hstart : Taken P node glances box { box with accepted := [] } :=
      ⟨⟨rfl, rfl, rfl, rfl⟩, fun _ h => Or.inl h, fun _ h => by cases h⟩
    exact forEach_preserves_of_mem (Taken P node glances box)
      (fun file hfile s hs => takeTurn_taken (hfiles hfile) hs) hstart

/-- Whatever ends the call, the files that verify are recorded before they go. -/
theorem takeOver_slot (nameLimit : Nat) (node : RelayNode) (glances : SlotFile → Glance)
    {files : List SlotFile} (hfiles : files ⊆ candidates box.home.slot) :
    ∀ file ∈ box.home.slot.rows,
      file ∈ (takeOver P nameLimit node glances files box).2.home.slot.rows ∨
        Excused P node glances box.ledger file := by
  intro file hfile
  rcases takeOver_taken (P := P) nameLimit node glances hfiles with
    ⟨_, hsame⟩ | h
  · rw [hsame]
    exact Or.inl hfile
  · exact h.slot file hfile

theorem takeOver_sameCache (nameLimit : Nat) (node : RelayNode) (glances : SlotFile → Glance)
    {files : List SlotFile} (hfiles : files ⊆ candidates box.home.slot) :
    SameCache box (takeOver P nameLimit node glances files box).2 := by
  rcases takeOver_taken (P := P) nameLimit node glances hfiles with
    ⟨_, hsame⟩ | h
  · rw [hsame]
    exact SameCache.refl box
  · exact h.cache

/-! ## The call that runs through -/

/-- The surroundings of a turn: readable policy files and a working clock. -/
structure Readies (glance : Glance) : Prop where
  peers : ∃ peers, glance.policy.peers = .ok peers
  revocations : ∃ revoked, glance.policy.revocations = .ok revoked
  clock : ClockReading glance.verifyAt

/-- The box that the turn for a file finds behind those for others. -/
def foundBehind (P : Platform) (nameLimit : Nat) (node : RelayNode) (glances : SlotFile → Glance)
    (before : List SlotFile) (box : ReplyBox) : ReplyBox :=
  (forEach (takeTurn P nameLimit node glances) before { box with accepted := [] }).2

/-- A slot whose candidates can all be dealt with. -/
structure TakeSound (P : Platform) (nameLimit : Nat) (node : RelayNode) (glances : SlotFile → Glance)
    (box : ReplyBox) : Prop where
  entries : box.home.slot.count ≤ maxRelayDirectoryEntries
  few : (jsonFiles box.home.slot).length ≤ maxRelayFilesPerPoll
  readies : ∀ file ∈ candidates box.home.slot, Readies (glances file)
  unpoisoned : ∀ file ∈ candidates box.home.slot, ¬ malformed P file →
    ¬ PoisonedReply P node (glances file).policy (.dict (readEnvelope P file))
  names : ∀ before file after, candidates box.home.slot = before ++ file :: after →
    (malformed P file ∨ ∃ reason, checkReply P node (glances file).policy (glances file).verifyAt
      (.dict (readEnvelope P file)) = .error (.rejected reason)) →
    NameFits nameLimit (glances file).toTurn file (foundBehind P nameLimit node glances before box).home

theorem takeTurn_ok (hready : Readies (glances file))
    (hunpoisoned : ¬ malformed P file →
      ¬ PoisonedReply P node (glances file).policy (.dict (readEnvelope P file)))
    (hname : (malformed P file ∨ ∃ reason, checkReply P node (glances file).policy
      (glances file).verifyAt (.dict (readEnvelope P file)) = .error (.rejected reason)) →
      NameFits nameLimit (glances file).toTurn file box.home) :
    (takeTurn P nameLimit node glances file box).1 = .ok () := by
  have h := takeTurn_cases (P := P) nameLimit node glances file box
  cases hresult : takeTurn P nameLimit node glances file box with
  | mk result box' =>
    rw [hresult] at h
    cases h with
    | refused reason _ hrefused => exact (quarantine_ok_iff reason).mpr (hname hrefused)
    | raised e hmalformed hraised =>
      obtain ⟨peers, hpeers⟩ := hready.peers
      obtain ⟨revoked, hrevocations⟩ := hready.revocations
      have hpoisoned := (checkReply_raises_iff (readEnvelope_printable P file) hready.clock hpeers
        hrevocations).mp hraised
      exact absurd hpoisoned (hunpoisoned hmalformed)
    | removed => rfl
    | accepted => rfl

theorem takeReplies_eq (h : TakeSound P nameLimit node glances box) :
    takeReplies P nameLimit node glances box =
      forEach (takeTurn P nameLimit node glances) (candidates box.home.slot)
        { box with accepted := [] } := by
  unfold takeReplies takeOver
  rw [if_neg (Nat.not_lt.mpr h.entries)]

theorem takeReplies_ok (h : TakeSound P nameLimit node glances box) :
    (takeReplies P nameLimit node glances box).1 = .ok () := by
  rw [takeReplies_eq h, forEach_ok_iff]
  intro before file after hsplit
  have hfile : file ∈ candidates box.home.slot := by
    rw [hsplit]
    exact List.mem_append_right _ List.mem_cons_self
  exact takeTurn_ok (h.readies file hfile) (h.unpoisoned file hfile) (h.names before file after hsplit)

theorem takeReplies_taken (h : TakeSound P nameLimit node glances box) :
    Taken P node glances box (takeReplies P nameLimit node glances box).2 := by
  rcases takeOver_taken (P := P) nameLimit node glances
    (List.Subset.refl (candidates box.home.slot)) with ⟨hlarge, _⟩ | htaken
  · exact absurd h.entries (Nat.not_le.mpr hlarge)
  · exact htaken

theorem takeReplies_pending (h : TakeSound P nameLimit node glances box)
    (hfile : file ∈ box.home.slot.rows) (hname : (lit ".json").isSuffixOf file.1 = true)
    (hverifies : Verifies P node (glances file) file)
    (hnew : ∀ key, replyKey P (readEnvelope P file) = some key →
      ¬ Recorded (glances file).seenAt key box.ledger) :
    verifiedReply P file ∈ (takeReplies P nameLimit node glances box).2.accepted := by
  obtain ⟨before, after, hsplit⟩ := List.append_of_mem (mem_candidates h.few hfile hname)
  have hok := takeReplies_ok h
  rw [takeReplies_eq h] at hok ⊢
  apply forEach_establishes (fun s : ReplyBox => verifiedReply P file ∈ s.accepted)
    (fun x s hs => takeTurn_accepted hs) hsplit hok
  apply takeTurn_pending hverifies
  have hcache : SameCache { box with accepted := [] }
      (forEach (takeTurn P nameLimit node glances) before { box with accepted := [] }).2 :=
    forEach_preserves (SameCache { box with accepted := [] })
      (fun x s hs => hs.trans takeTurn_sameCache) before (SameCache.refl _)
  rw [hcache.ledger]
  exact hnew

end Rdap.Relay
