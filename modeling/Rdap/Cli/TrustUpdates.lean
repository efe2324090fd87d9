import Rdap.Identity.Keys
import Rdap.Lib.Stored
import Rdap.Protocol.Bech32mRoundTrip
import Rdap.Python.Equality
import Rdap.Python.Hex
import Rdap.Python.JsonValues
import Rdap.Python.Raise

/-!
# Updates of trust in two files

The teammates that a user sees are in `rdap.json`, the addresses that are authorised in `peers.json`. Each file
is replaced as a whole, but the two not together: what changes is revoked first, then the teammates are
published, then the new peer is enabled.
-/

set_option autoImplicit false

namespace Rdap.Cli
open Python Json Lib Identity Protocol

/-- The JSON objects of the two files; of a file that does not exist, the empty one. -/
structure Home where
  state : Dict
  peers : Dict

/-- `_save_json`, which replaces the file or raises with the file as it was. -/
inductive FileOp where
  | saveState (st : Dict)
  | savePeers (file : Dict)

abbrev Saves := Program FileOp fun _ => Bool

def Home.apply (home : Home) : Program.Event FileOp (fun _ => Bool) → Home
  | ⟨_, false⟩ => home
  | ⟨.saveState st, true⟩ => { home with state := st }
  | ⟨.savePeers file, true⟩ => { home with peers := file }

/-- `d[key]` -/
def item (d : Dict) (key : PyStr) : Except PyExc Value :=
  if d.any fun entry => entry.1 = key then .ok (Dict.getD d key .none) else .error ⟨.keyError, key⟩

/-- `mate.get` of what is no dictionary raises. -/
def asMate : Value → Except PyExc Dict
  | .dict mate => .ok mate
  | _ => .error ⟨.attributeError, lit "object has no attribute 'get'"⟩

/-- `d.setdefault('teammates', {})` -/
def withTeammates (st : Dict) : Dict :=
  if st.any fun item => item.1 = lit "teammates" then st else st ++ [(lit "teammates", .dict [])]

def teammates (st : Dict) : Except PyExc Object :=
  match Dict.getD st (lit "teammates") (.dict []) with
  | .dict items => .ok (KeyedTable.ofRows items)
  | _ => .error ⟨.attributeError, lit "object has no attribute 'get'"⟩

/-- `==` of two dictionaries with text values. -/
def samePeers (a b : Peers) : Bool := a.count = b.count && a.rows.all fun row => b.get? row.1 = some row.2

section
variable (P : Platform)

/-! ## The files -/

def peerPin (entry : PyStr × Value) : Except PyExc (PyStr × PyStr) :=
  match entry.2 with
  | .dict val => do
    let address ← item val (lit "address") >>= pyStr P
    let publicKey ← item val (lit "pubkey") >>= pyStr P
    return (address, publicKey)
  | val => do
    let publicKey ← pyStr P val
    return (entry.1, publicKey)

def loadPeer (peers : Peers) (entry : PyStr × Value) : Except PyExc Peers := do
  let pin ← peerPin P entry
  let _ ← validateAddressPublicKey P pin.1 pin.2
  orRaise (∀ previous ∈ peers.get? pin.1, P.lower previous = P.lower pin.2)
    (lit "conflicting public keys for " ++ pin.1)
  return peers.set pin.1 (P.lower pin.2)

/-- `load_trusted_peers` -/
def loadPeers (file : Dict) : Except PyExc Peers := file.foldlM (loadPeer P) .empty

/-- What `save_peers` writes. -/
def peersFile (peers : Peers) : Except PyExc Dict :=
  peers.rows.mapM fun row => do
    let _ ← validateAddressPublicKey P row.1 row.2
    return (row.1, Value.str row.2)

def savePeers (peers : Peers) : Saves Bool :=
  match peersFile P peers with
  | .error _ => .done false
  | .ok file => Program.perform (.savePeers file)

/-- `state() == original_state and load_peers() == peers` -/
def unchangedSince (home : Home) (st : Dict) (peers : Peers) : Except PyExc Bool :=
  if pyEq (.dict home.state) (.dict st) then (loadPeers P home.peers).map fun loaded => samePeers loaded peers
  else .ok false

def addressOf (mate : Dict) : Except PyExc PyStr := pyStr P (Dict.getD mate (lit "address") (.str []))

/-! ## `cmd_trust` -/

/-- The pin that is stored, and the endpoint and mailbox that were verified for it. -/
structure Pin where
  tname : PyStr
  addr : PyStr
  pub : PyStr
  verifiedUrl : PyStr
  mailbox : Option Value

/-- `any(name != tname and str(saved.get('address', '')) == old_address ...)` -/
def stillReferenced (tname oldAddress : PyStr) : List (PyStr × Value) → Except PyExc Bool
  | [] => .ok false
  | (name, saved) :: others =>
    if name = tname then stillReferenced tname oldAddress others
    else do
      let mate ← asMate saved
      let address ← addressOf P mate
      if address = oldAddress then return true else stillReferenced tname oldAddress others

def visibleBefore (mates : List (PyStr × Value)) : Except PyExc (List PyStr) := do
  let addresses ← mates.mapM fun entry => do
    let mate ← asMate entry.2
    if truthy (Dict.getD mate (lit "address") .none) then (addressOf P mate).map some else return none
  return addresses.reduceOption

/-- The key of an entry is the pin's, in any case. -/
def sameKey (pin : Pin) (mate : Dict) : Except PyExc Bool := do
  let savedKey ← pyStr P (Dict.getD mate (lit "public_key") (.str []))
  return P.lower savedKey = P.lower pin.pub

def sameIdentity (pin : Pin) (mate : Dict) : Except PyExc Bool :=
  if pyEq (Dict.getD mate (lit "address") .none) (.str pin.addr) then sameKey P pin mate else .ok false

/-- The entry of the pin, from the one that had its name. -/
def updatedMate (pin : Pin) (mate : Dict) : Except PyExc Dict := do
  let same ← sameIdentity P pin mate
  let mate := if same then mate else mate.filter fun entry => entry.1 ≠ lit "mailbox"
  let mate := dictSet (dictSet mate (lit "address") (.str pin.addr)) (lit "public_key") (.str pin.pub)
  let mate :=
    if pin.verifiedUrl ≠ [] then dictSet mate (lit "url") (.str pin.verifiedUrl)
    else if same then mate
    else dictSet mate (lit "url") (.str [])
  return match pin.mailbox with
    | some mailbox => dictSet mate (lit "mailbox") mailbox
    | none => mate

/-- The contents of the three phases. -/
structure Update where
  peers : Peers
  safePeers : Peers
  state : Dict
  finalPeers : Peers

def revokes (oldAddress addr : PyStr) (oldStillReferenced : Bool) : Bool :=
  oldAddress ≠ [] && oldAddress ≠ addr && !oldStillReferenced

def planTrust (home : Home) (pin : Pin) : Except PyExc Update := do
  let _ ← validateAddressPublicKey P pin.addr pin.pub
  let st := withTeammates home.state
  let mates ← teammates st
  let mate ← asMate ((mates.get? pin.tname).getD (.dict []))
  let oldAddress ← addressOf P mate
  let newMate ← updatedMate P pin mate
  let peers ← loadPeers P home.peers
  let oldStillReferenced ← stillReferenced P pin.tname oldAddress mates.rows
  let kept := if revokes oldAddress pin.addr oldStillReferenced then peers.erase oldAddress else peers
  let visible ← visibleBefore P mates.rows
  let safePeers := if pin.addr ∈ visible then kept else kept.erase pin.addr
  return {
    peers
    safePeers
    state := dictSet st (lit "teammates") (.dict (mates.set pin.tname (.dict newMate)).rows)
    finalPeers := kept.set pin.addr pin.pub }

def savePeersIf (written : Bool) (peers : Peers) : Saves Bool := if written then savePeers P peers else .done true

/-- The writes; the answer is whether all of them went through. -/
def publish (u : Update) : Saves Bool := do
  let safeWritten := !samePeers u.safePeers u.peers
  let revoked ← savePeersIf P safeWritten u.safePeers
  if revoked then
    let published ← Program.perform (.saveState u.state)
    if published then savePeers P u.finalPeers
    else do
      let _ ← savePeersIf P safeWritten u.peers
      return false
  else return false

def cmdTrust (home : Home) (pin : Pin) : Saves Bool :=
  match planTrust P home pin with
  | .error _ => .done false
  | .ok u =>
    match unchangedSince P home home.state u.peers with
    | .ok true => publish P u
    | _ => .done false

/-! ## `cmd_discover` -/

/-- There is an entry under the name, and it is not that of the pin. -/
def identityChanged (pin : Pin) (existing : Value) : Except PyExc Bool :=
  if truthy existing then do
    let mate ← asMate existing
    let address ← addressOf P mate
    if address ≠ pin.addr then return true
    else (sameKey P pin mate).map not
  else .ok false

def discoveredMate (pin : Pin) : Dict :=
  let entry : Dict := [(lit "address", .str pin.addr), (lit "public_key", .str pin.pub),
    (lit "url", .str pin.verifiedUrl)]
  match pin.mailbox with
  | some mailbox => dictSet entry (lit "mailbox") mailbox
  | none => entry

/-- What the loop makes of the state and the peers in memory for a node whose identity and card were verified:
nothing if the node is skipped. -/
def planDiscover (st : Dict) (peers : Peers) (pin : Pin) : Except PyExc (Option (Dict × Peers)) :=
  match validateAddressPublicKey P pin.addr pin.pub with
  | .error _ => .ok none
  | .ok _ => do
    let st := withTeammates st
    let mates ← teammates st
    let changed ← identityChanged P pin ((mates.get? pin.tname).getD (.dict []))
    return if changed then none
      else some (dictSet st (lit "teammates") (.dict (mates.set pin.tname (.dict (discoveredMate pin))).rows),
        peers.set pin.addr pin.pub)

/-- The loop over the nodes that passed the checks on the network, with the peers in memory; a node that fails one
of them is skipped and writes nothing. The files are those that the writes so far have left. -/
def cmdDiscover : Home → Peers → List Pin → Saves Bool
  | _, _, [] => .done true
  | home, peers, pin :: pins =>
    match planDiscover P home.state peers pin with
    | .error _ => .done false
    | .ok none => cmdDiscover home peers pins
    | .ok (some (st, newPeers)) =>
      match unchangedSince P home (withTeammates home.state) peers with
      | .ok true => .call (.saveState st) fun published =>
        if published then
          match peersFile P newPeers with
          | .error _ => .done false
          | .ok file => .call (.savePeers file) fun enabled =>
            if enabled then cmdDiscover { state := st, peers := file } newPeers pins else .done false
        else .done false
      | _ => .done false

end

variable {P : Platform}

/-! ## Loading what was saved -/

theorem lower_lower {s : PyStr} (h : s.all isAscii = true) : P.lower (P.lower s) = P.lower s := by
  have hchar : ∀ c : CodePoint, isAscii c = true → isAscii (asciiLower c) = true := by
    intro c hc
    have hlt : c.val < 128 := of_decide_eq_true hc
    by_cases hupper : 65 ≤ c.val ∧ c.val ≤ 90
    · have hlower : asciiLower c = ⟨c.val + 32, by omega⟩ := dif_pos hupper
      rw [hlower]
      exact decide_eq_true (show c.val + 32 < 128 by omega)
    · have hsame : asciiLower c = c := dif_neg hupper
      rwa [hsame]
  have hall : (s.map asciiLower).all isAscii = true := by
    rw [List.all_map, List.all_eq_true]
    exact fun c hc => hchar c (List.all_eq_true.mp h c hc)
  rw [P.lower_ascii h, P.lower_ascii hall, List.map_map]
  exact List.map_congr_left fun c _ => Bech32m.asciiLower_asciiLower c

/-- A pin that was checked: the address is not empty, and the key is in ASCII. -/
theorem checked {address key : PyStr} {b : Bytes} (h : validateAddressPublicKey P address key = .ok b) :
    address ≠ [] ∧ key.all isAscii = true := by
  obtain ⟨_, rfl⟩ := validateAddressPublicKey_ok P h
  refine ⟨Address.encode_ne_nil P b, ?_⟩
  unfold validateAddressPublicKey at h
  split at h
  · cases h
  · rename_i publicKey hkey
    exact fromhex_ascii hkey

theorem loadPeer_ok {peers loaded : Peers} {entry : PyStr × Value} (h : loadPeer P peers entry = .ok loaded) :
    ∃ address key b, validateAddressPublicKey P address key = .ok b ∧
      loaded = peers.set address (P.lower key) := by
  simp only [loadPeer, bind_ok, pure_ok, orRaise_ok] at h
  obtain ⟨pin, _, b, hvalid, _, _, rfl⟩ := h
  exact ⟨pin.1, pin.2, b, hvalid, rfl⟩

/-- What is loaded has an address, and its key in lower case. -/
def Lowered (P : Platform) (peers : Peers) : Prop :=
  ∀ a key, peers.get? a = some key → a ≠ [] ∧ P.lower key = key

theorem loadPeers_lowered {file : Dict} {peers : Peers} (h : loadPeers P file = .ok peers) : Lowered P peers := by
  have hfold : ∀ {start : Peers}, Lowered P start → file.foldlM (loadPeer P) start = .ok peers →
      Lowered P peers := by
    clear h
    induction file with
    | nil =>
      intro start hstart h
      obtain rfl := pure_ok.mp h
      exact hstart
    | cons entry file ih =>
      intro start hstart h
      rw [List.foldlM_cons] at h
      obtain ⟨next, hnext, hrest⟩ := bind_ok.mp h
      obtain ⟨address, key, b, hvalid, rfl⟩ := loadPeer_ok hnext
      refine ih ?_ hrest
      intro a k hk
      rw [KeyedTable.get?_set] at hk
      split at hk
      · rename_i ha
        obtain rfl := Option.some.inj hk
        exact ⟨ha ▸ (checked hvalid).1, lower_lower (checked hvalid).2⟩
      · exact hstart a k hk
  exact hfold (fun a key hkey => by cases hkey) h

theorem loadPeer_saved {peers : Peers} {address key : PyStr} {b : Bytes}
    (hvalid : validateAddressPublicKey P address key = .ok b) (habsent : peers.get? address = none) :
    loadPeer P peers (address, .str key) = .ok (peers.set address (P.lower key)) := by
  have hprevious : ∀ previous ∈ peers.get? address, P.lower previous = P.lower key := by
    rw [habsent]
    intro previous hprevious
    cases hprevious
  simp only [loadPeer, peerPin, pyStr, bind, Except.bind, pure, Except.pure, hvalid]
  rw [orRaise_pos hprevious]

/-- A row that was saved is loaded, and nothing else. -/
theorem foldlM_saved {rows : List (PyStr × PyStr)} {file : Dict} {start : Peers}
    (hfile : rows.mapM (fun row => do
      let _ ← validateAddressPublicKey P row.1 row.2
      return (row.1, Value.str row.2)) = .ok file)
    (hnodup : (rows.map Prod.fst).Nodup) (habsent : ∀ row ∈ rows, start.get? row.1 = none) :
    ∃ loaded, file.foldlM (loadPeer P) start = .ok loaded ∧
      (∀ row ∈ rows, loaded.get? row.1 = some (P.lower row.2)) ∧
      ∀ a, a ∉ rows.map Prod.fst → loaded.get? a = start.get? a := by
  induction rows generalizing file start with
  | nil =>
    rw [List.mapM_nil] at hfile
    obtain rfl := pure_ok.mp hfile
    exact ⟨start, rfl, by simp, fun a _ => rfl⟩
  | cons row rows ih =>
    rw [List.mapM_cons] at hfile
    simp only [bind_ok, pure_ok] at hfile
    obtain ⟨_, ⟨b, hvalid, rfl⟩, rest, hrest, rfl⟩ := hfile
    rw [List.map_cons, List.nodup_cons] at hnodup
    obtain ⟨hnew, hnodup⟩ := hnodup
    have hstep := loadPeer_saved hvalid (habsent row List.mem_cons_self)
    have hlater : ∀ other ∈ rows, (start.set row.1 (P.lower row.2)).get? other.1 = none := by
      intro other hother
      have hne : other.1 ≠ row.1 := fun he => hnew (he ▸ List.mem_map_of_mem hother)
      rw [KeyedTable.get?_set_ne _ _ hne]
      exact habsent other (List.mem_cons_of_mem _ hother)
    obtain ⟨loaded, hloaded, hrows, hothers⟩ := ih hrest hnodup hlater
    refine ⟨loaded, ?_, ?_, ?_⟩
    · rw [List.foldlM_cons, hstep]
      exact hloaded
    · intro other hother
      rcases List.mem_cons.mp hother with rfl | hother
      · rw [hothers other.1 hnew, KeyedTable.get?_set_self]
      · exact hrows other hother
    · intro a ha
      rw [List.map_cons, List.mem_cons, not_or] at ha
      rw [hothers a ha.2, KeyedTable.get?_set_ne _ _ ha.1]

theorem loadPeers_saved {peers : Peers} {file : Dict} (h : peersFile P peers = .ok file) :
    ∃ loaded, loadPeers P file = .ok loaded ∧ ∀ a, loaded.get? a = (peers.get? a).map P.lower := by
  obtain ⟨loaded, hloaded, hrows, hothers⟩ := @foldlM_saved P _ _ .empty h peers.nodup fun _ _ => rfl
  refine ⟨loaded, hloaded, fun a => ?_⟩
  cases hget : peers.get? a with
  | none =>
    apply hothers
    intro hmem
    obtain ⟨row, hrow, rfl⟩ := List.mem_map.mp hmem
    exact (peers.get?_eq_none).mp hget row.2 hrow
  | some key => exact hrows (a, key) ((peers.get?_eq_some).mp hget)

/-! ## Visible teammates -/

/-- There is a teammate of that address. -/
def Visible (P : Platform) (st : Dict) (a : PyStr) : Prop :=
  ∃ mates name mate, teammates st = .ok mates ∧ mates.get? name = some (.dict mate) ∧ addressOf P mate = .ok a

/-- Who is authorised is visible. -/
def Safe (P : Platform) (home : Home) : Prop :=
  ∀ peers, loadPeers P home.peers = .ok peers → ∀ a key, peers.get? a = some key → Visible P home.state a

theorem teammates_with (st : Dict) : teammates (withTeammates st) = teammates st := by
  unfold withTeammates
  split
  · rfl
  · rename_i habsent
    have hnone : st.find? (fun item => item.1 = lit "teammates") = none := by
      apply List.find?_eq_none.mpr
      intro item hitem htrue
      exact habsent (List.any_eq_true.mpr ⟨item, hitem, htrue⟩)
    have hget : Dict.getD (st ++ [(lit "teammates", .dict [])]) (lit "teammates") (.dict []) =
        Dict.getD st (lit "teammates") (.dict []) := by
      simp [Dict.getD, List.find?_append, hnone]
    rw [teammates, hget, teammates]

theorem teammates_set (st : Dict) (mates : Object) :
    teammates (dictSet st (lit "teammates") (.dict mates.rows)) = .ok mates := by
  rw [teammates, getD_dictSet, if_pos rfl]
  simp only [KeyedTable.ofRows_rows]

theorem updatedMate_address {pin : Pin} {mate newMate : Dict} (h : updatedMate P pin mate = .ok newMate) :
    addressOf P newMate = .ok pin.addr := by
  have hkey : lit "address" ≠ lit "public_key" := by decide
  have hurl : lit "address" ≠ lit "url" := by decide
  have hmailbox : lit "address" ≠ lit "mailbox" := by decide
  have hget : Dict.getD newMate (lit "address") (.str []) = .str pin.addr := by
    simp only [updatedMate, bind_ok, pure_ok] at h
    obtain ⟨same, _, rfl⟩ := h
    cases pin.mailbox with
    | none =>
      dsimp only
      split_ifs <;> simp only [getD_dictSet, hkey, hurl, if_false, if_true]
    | some mailbox =>
      dsimp only
      rw [getD_dictSet, if_neg hmailbox]
      split_ifs <;> simp only [getD_dictSet, hkey, hurl, if_false, if_true]
  rw [addressOf, hget]
  rfl

theorem discoveredMate_address (pin : Pin) : addressOf P (discoveredMate pin) = .ok pin.addr := by
  have hmailbox : lit "address" ≠ lit "mailbox" := by decide
  have hget : Dict.getD (discoveredMate pin) (lit "address") (.str []) = .str pin.addr := by
    unfold discoveredMate
    cases pin.mailbox with
    | none => rfl
    | some mailbox =>
      dsimp only
      rw [getD_dictSet, if_neg hmailbox]
      rfl
  rw [addressOf, hget]
  rfl

/-- Another entry has the address. -/
def Referenced (P : Platform) (mates : Object) (tname a : PyStr) : Prop :=
  ∃ name mate, name ≠ tname ∧ mates.get? name = some (.dict mate) ∧ addressOf P mate = .ok a

theorem asMate_ok {v : Value} {mate : Dict} : asMate v = .ok mate ↔ v = .dict mate := by
  cases v <;> simp [asMate]

theorem stillReferenced_iff {tname a : PyStr} {items : List (PyStr × Value)} {found : Bool}
    (h : stillReferenced P tname a items = .ok found) :
    found = true ↔ ∃ name mate, name ≠ tname ∧ (name, Value.dict mate) ∈ items ∧ addressOf P mate = .ok a := by
  induction items with
  | nil =>
    obtain rfl := Except.ok.inj h
    simp
  | cons item items ih =>
    obtain ⟨name, saved⟩ := item
    unfold stillReferenced at h
    split at h
    · rename_i hname
      rw [ih h]
      constructor
      · rintro ⟨other, mate, hother, hmem, haddress⟩
        exact ⟨other, mate, hother, List.mem_cons_of_mem _ hmem, haddress⟩
      · rintro ⟨other, mate, hother, hmem, haddress⟩
        rcases List.mem_cons.mp hmem with heq | hmem
        · exact absurd ((Prod.mk.inj heq).1.trans hname) hother
        · exact ⟨other, mate, hother, hmem, haddress⟩
    · rename_i hname
      simp only [bind_ok] at h
      obtain ⟨mate, hmate, address, haddress, h⟩ := h
      obtain rfl := asMate_ok.mp hmate
      split at h
      · rename_i hsame
        obtain rfl := pure_ok.mp h
        exact iff_of_true rfl ⟨name, mate, hname, List.mem_cons_self, hsame ▸ haddress⟩
      · rename_i hother
        rw [ih h]
        constructor
        · rintro ⟨other, mate', hne, hmem, haddress'⟩
          exact ⟨other, mate', hne, List.mem_cons_of_mem _ hmem, haddress'⟩
        · rintro ⟨other, mate', hne, hmem, haddress'⟩
          rcases List.mem_cons.mp hmem with heq | hmem
          · obtain ⟨rfl, hdict⟩ := Prod.mk.inj heq
            obtain rfl := Value.dict.inj hdict
            exact absurd (Except.ok.inj (haddress.symm.trans haddress')) hother
          · exact ⟨other, mate', hne, hmem, haddress'⟩

theorem stillReferenced_rows {mates : Object} {tname a : PyStr} {found : Bool}
    (h : stillReferenced P tname a mates.rows = .ok found) : found = true ↔ Referenced P mates tname a := by
  rw [stillReferenced_iff h]
  simp only [Referenced, ← KeyedTable.get?_eq_some]

/-- The entries of other names stay as they are. -/
theorem visible_of_referenced {st : Dict} {mates : Object} {tname a : PyStr} {newMate : Value}
    (h : Referenced P mates tname a) :
    Visible P (dictSet st (lit "teammates") (.dict (mates.set tname newMate).rows)) a := by
  obtain ⟨name, mate, hname, hget, haddress⟩ := h
  refine ⟨_, name, mate, teammates_set _ _, ?_, haddress⟩
  rw [KeyedTable.get?_set_ne _ _ hname, hget]

theorem visible_set {st : Dict} {mates : Object} {tname a : PyStr} {newMate : Dict}
    (h : addressOf P newMate = .ok a) :
    Visible P (dictSet st (lit "teammates") (.dict (mates.set tname (.dict newMate)).rows)) a :=
  ⟨_, tname, newMate, teammates_set _ _, KeyedTable.get?_set_self _ _ _, h⟩

/-! ## Writing -/

/-- Nobody is authorised who is not in the table. -/
def Within (P : Platform) (home : Home) (peers : Peers) : Prop :=
  ∀ loaded, loadPeers P home.peers = .ok loaded → ∀ a key, loaded.get? a = some key → ∃ k, peers.get? a = some k

theorem within_saved {home : Home} {peers : Peers} {file : Dict} (h : peersFile P peers = .ok file) :
    Within P { home with peers := file } peers := by
  intro loaded hloaded a key hkey
  obtain ⟨loaded', hloaded', hget⟩ := loadPeers_saved h
  obtain rfl := Except.ok.inj (hloaded.symm.trans hloaded')
  rw [hget, Option.map_eq_some_iff] at hkey
  obtain ⟨k, hk, _⟩ := hkey
  exact ⟨k, hk⟩

/-- Everyone in the table is visible. -/
def Shown (P : Platform) (st : Dict) (peers : Peers) : Prop := ∀ a key, peers.get? a = some key → Visible P st a

theorem Within.safe {home : Home} {peers : Peers} (h : Within P home peers) (hshown : Shown P home.state peers) :
    Safe P home := by
  intro loaded hloaded a key hkey
  obtain ⟨k, hk⟩ := h loaded hloaded a key hkey
  exact hshown a k hk

theorem samePeers_absent {a b : Peers} (h : samePeers a b = true) {k v : PyStr} (hb : b.get? k = some v) :
    ∃ w, a.get? k = some w := by
  simp only [samePeers, Bool.and_eq_true, decide_eq_true_eq, List.all_eq_true] at h
  obtain ⟨hcount, hrows⟩ := h
  cases ha : a.get? k with
  | some w => exact ⟨w, rfl⟩
  | none =>
    have hkeys : ∀ j w, a.get? j = some w → ∃ x, b.get? j = some x := fun j w hj =>
      ⟨w, hrows (j, w) ((a.get?_eq_some).mp hj)⟩
    rw [KeyedTable.absent_of_count hkeys hcount ha] at hb
    cases hb

section
variable {home : Home} {peers : Peers}

theorem savePeers_secure {post : Bool → Home → Prop} (hsafe : Safe P home) (hshown : Shown P home.state peers)
    (hfailed : post false home)
    (hsaved : ∀ file, peersFile P peers = .ok file → post true { home with peers := file }) :
    (savePeers P peers).Secure Home.apply (Safe P) post home := by
  unfold savePeers
  cases hfile : peersFile P peers with
  | error e => exact ⟨hsafe, hfailed⟩
  | ok file =>
    refine ⟨hsafe, fun saved => ?_⟩
    cases saved with
    | false => exact ⟨hsafe, hfailed⟩
    | true => exact ⟨(within_saved hfile).safe hshown, hsaved file hfile⟩

end

/-- What is known of an update before it is written. -/
structure Update.Sound (P : Platform) (home : Home) (u : Update) : Prop where
  loaded : loadPeers P home.peers = .ok u.peers
  revoked : ∀ a key, u.safePeers.get? a = some key → ∃ k, u.peers.get? a = some k
  shown : Shown P u.state u.safePeers
  enabled : Shown P u.state u.finalPeers

/-- The teammates and the peers of a finished update are on disk. -/
def Written (P : Platform) (u : Update) (finished : Bool) (home : Home) : Prop :=
  finished = true → home.state = u.state ∧ peersFile P u.finalPeers = .ok home.peers

theorem publish_secure {home : Home} {u : Update} (h : u.Sound P home) (hsafe : Safe P home) :
    (publish P u).Secure Home.apply (Safe P) (Written P u) home := by
  have hbefore : Shown P home.state u.peers := hsafe u.peers h.loaded
  have hsubset : Shown P home.state u.safePeers := by
    intro a key hkey
    obtain ⟨k, hk⟩ := h.revoked a key hkey
    exact hbefore a k hk
  have hnever : ∀ home', Written P u false home' := fun _ hfinished => by cases hfinished
  -- The first phase leaves only peers that are visible before and after the second.
  have hfirst : (savePeersIf P (!samePeers u.safePeers u.peers) u.safePeers).Secure Home.apply (Safe P)
      (fun revoked home' => home'.state = home.state ∧ (revoked = true → Within P home' u.safePeers)) home := by
    cases hsame : samePeers u.safePeers u.peers with
    | true =>
      refine ⟨hsafe, rfl, fun _ loaded hloaded a key hkey => ?_⟩
      obtain rfl := Except.ok.inj (hloaded.symm.trans h.loaded)
      exact samePeers_absent hsame hkey
    | false =>
      refine savePeers_secure hsafe hsubset ⟨rfl, fun hfalse => by cases hfalse⟩ ?_
      exact fun file hfile => ⟨rfl, fun _ => within_saved hfile⟩
  unfold publish
  apply Program.Secure.bind
  refine Program.Secure.mono ?_ hfirst
  rintro revoked home₁ hsafe₁ ⟨hstate₁, hwithin⟩
  cases revoked with
  | false => exact ⟨hsafe₁, hnever home₁⟩
  | true =>
    simp only [if_true, Program.perform_bind]
    refine ⟨hsafe₁, fun published => ?_⟩
    cases published with
    | false =>
      have hrollback : (savePeersIf P (!samePeers u.safePeers u.peers) u.peers).Secure Home.apply (Safe P)
          (fun _ _ => True) home₁ := by
        unfold savePeersIf
        split
        · exact savePeers_secure hsafe₁ (hstate₁ ▸ hbefore) trivial fun _ _ => trivial
        · exact ⟨hsafe₁, trivial⟩
      apply Program.Secure.bind
      exact Program.Secure.mono (fun _ home₂ hsafe₂ _ => ⟨hsafe₂, hnever home₂⟩) hrollback
    | true =>
      have hsafe₂ : Safe P { home₁ with state := u.state } := by
        have hin : Within P { home₁ with state := u.state } u.safePeers := hwithin rfl
        exact hin.safe h.shown
      exact savePeers_secure hsafe₂ h.enabled (hnever _) fun file hfile _ => ⟨rfl, hfile⟩

/-! ## The plan of `cmd_trust` -/

/-- The peers without the address that is replaced. -/
def keptPeers (peers : Peers) (oldAddress addr : PyStr) (found : Bool) : Peers :=
  if revokes oldAddress addr found then peers.erase oldAddress else peers

/-- What `cmd_trust` found and what it writes. -/
structure Planned (P : Platform) (home : Home) (pin : Pin) (u : Update) (mates : Object) (mate newMate : Dict)
    (oldAddress : PyStr) (found : Bool) : Prop where
  hasMates : teammates home.state = .ok mates
  saved : (mates.get? pin.tname).getD (.dict []) = .dict mate
  savedAddress : addressOf P mate = .ok oldAddress
  newAddress : addressOf P newMate = .ok pin.addr
  loaded : loadPeers P home.peers = .ok u.peers
  referenced : found = true ↔ Referenced P mates pin.tname oldAddress
  safePeers : ∀ a key, u.safePeers.get? a = some key →
    (keptPeers u.peers oldAddress pin.addr found).get? a = some key
  state : u.state = dictSet (withTeammates home.state) (lit "teammates")
    (.dict (mates.set pin.tname (.dict newMate)).rows)
  finalPeers : u.finalPeers = (keptPeers u.peers oldAddress pin.addr found).set pin.addr pin.pub

theorem get?_of_erase {t : Peers} {j a key : PyStr} (h : (t.erase j).get? a = some key) :
    a ≠ j ∧ t.get? a = some key := by
  rw [KeyedTable.get?_erase] at h
  split at h
  · cases h
  · rename_i hne
    exact ⟨hne, h⟩

theorem planTrust_ok {home : Home} {pin : Pin} {u : Update} (h : planTrust P home pin = .ok u) :
    ∃ mates mate newMate oldAddress found, Planned P home pin u mates mate newMate oldAddress found := by
  simp only [planTrust, bind_ok, pure_ok, teammates_with] at h
  obtain ⟨_, _, mates, hmates, mate, hmate, oldAddress, hold, newMate, hnew, peers, hload, found, hfound, visible,
    _, rfl⟩ := h
  refine ⟨mates, mate, newMate, oldAddress, found, hmates, asMate_ok.mp hmate, hold, updatedMate_address hnew,
    hload, stillReferenced_rows hfound, ?_, rfl, rfl⟩
  intro a key hkey
  dsimp only at hkey
  split at hkey
  · exact hkey
  · exact (get?_of_erase hkey).2

section
variable {home : Home} {pin : Pin} {u : Update} {mates : Object} {mate newMate : Dict} {oldAddress : PyStr}
  {found : Bool} (h : Planned P home pin u mates mate newMate oldAddress found)
include h

theorem Planned.kept {a key : PyStr} (hkey : (keptPeers u.peers oldAddress pin.addr found).get? a = some key) :
    u.peers.get? a = some key ∧ (a = oldAddress → a ≠ pin.addr → Referenced P mates pin.tname a) := by
  unfold keptPeers at hkey
  split at hkey
  · obtain ⟨hne, hget⟩ := get?_of_erase hkey
    exact ⟨hget, fun heq => absurd heq hne⟩
  · rename_i hrevokes
    refine ⟨hkey, ?_⟩
    rintro rfl hother
    have hnonempty := (loadPeers_lowered h.loaded a key hkey).1
    have hfound : found = true := by
      simpa [revokes, hnonempty, hother] using hrevokes
    exact h.referenced.mp hfound

theorem Planned.shown (hsafe : Safe P home) {a key : PyStr}
    (hkey : (keptPeers u.peers oldAddress pin.addr found).get? a = some key) : Visible P u.state a := by
  obtain ⟨hget, hreferenced⟩ := h.kept hkey
  obtain ⟨mates', name, mate', hmates, hname, haddress⟩ := hsafe u.peers h.loaded a key hget
  obtain rfl := Except.ok.inj (hmates.symm.trans h.hasMates)
  rw [h.state]
  by_cases htname : name = pin.tname
  · subst htname
    have hmate := h.saved
    rw [hname, Option.getD_some] at hmate
    obtain rfl := Value.dict.inj hmate
    have hold : a = oldAddress := Except.ok.inj (haddress.symm.trans h.savedAddress)
    by_cases haddr : a = pin.addr
    · exact visible_set (haddr ▸ h.newAddress)
    · exact visible_of_referenced (hreferenced hold haddr)
  · exact visible_of_referenced ⟨name, mate', htname, hname, haddress⟩

theorem Planned.sound (hsafe : Safe P home) : u.Sound P home where
  loaded := h.loaded
  revoked a key hkey := ⟨key, (h.kept (h.safePeers a key hkey)).1⟩
  shown a key hkey := h.shown hsafe (h.safePeers a key hkey)
  enabled a key hkey := by
    rw [h.finalPeers, KeyedTable.get?_set] at hkey
    split at hkey
    · rename_i haddr
      rw [h.state]
      exact visible_set (haddr ▸ h.newAddress)
    · exact h.shown hsafe hkey

end

/-! ## A finished update -/

/-- The entry of that name had the address. -/
def Replaced (P : Platform) (home : Home) (tname a : PyStr) : Prop :=
  ∃ mates mate, teammates home.state = .ok mates ∧ mates.get? tname = some (.dict mate) ∧ addressOf P mate = .ok a

/-- The new pin is authorised, the replaced address only if another teammate has it, and all others as before. -/
structure Trusted (P : Platform) (before after : Home) (pin : Pin) : Prop where
  enabled : ∃ peers, loadPeers P after.peers = .ok peers ∧ peers.get? pin.addr = some (P.lower pin.pub)
  replaced : ∀ peers, loadPeers P after.peers = .ok peers → ∀ a ≠ pin.addr, Replaced P before pin.tname a →
    ∀ key, peers.get? a = some key → ∃ mates, teammates after.state = .ok mates ∧ Referenced P mates pin.tname a
  others : ∃ old new, loadPeers P before.peers = .ok old ∧ loadPeers P after.peers = .ok new ∧
    ∀ a ≠ pin.addr, ¬ Replaced P before pin.tname a → new.get? a = old.get? a

theorem Planned.trusted {home after : Home} {pin : Pin} {u : Update} {mates : Object} {mate newMate : Dict}
    {oldAddress : PyStr} {found : Bool} (h : Planned P home pin u mates mate newMate oldAddress found)
    (hstate : after.state = u.state) (hfile : peersFile P u.finalPeers = .ok after.peers) :
    Trusted P home after pin := by
  obtain ⟨loaded, hloaded, hget⟩ := loadPeers_saved hfile
  have hfinal : ∀ a ≠ pin.addr, loaded.get? a =
      ((keptPeers u.peers oldAddress pin.addr found).get? a).map P.lower := by
    intro a ha
    rw [hget, h.finalPeers, KeyedTable.get?_set_ne _ _ ha]
  refine ⟨⟨loaded, hloaded, ?_⟩, ?_, u.peers, loaded, h.loaded, hloaded, ?_⟩
  · rw [hget, h.finalPeers, KeyedTable.get?_set_self]
    rfl
  · rintro peers hpeers a ha ⟨mates', mate', hmates, hmate, haddress⟩ key hkey
    obtain rfl := Except.ok.inj (hpeers.symm.trans hloaded)
    obtain rfl := Except.ok.inj (hmates.symm.trans h.hasMates)
    have hsaved := h.saved
    rw [hmate, Option.getD_some] at hsaved
    obtain rfl := Value.dict.inj hsaved
    have hold : a = oldAddress := Except.ok.inj (haddress.symm.trans h.savedAddress)
    rw [hfinal a ha, Option.map_eq_some_iff] at hkey
    obtain ⟨k, hk, _⟩ := hkey
    obtain ⟨name, other, hname, hother, hotherAddress⟩ := (h.kept hk).2 hold ha
    refine ⟨_, by rw [hstate, h.state, teammates_set], name, other, hname, ?_, hotherAddress⟩
    rw [KeyedTable.get?_set_ne _ _ hname, hother]
  · intro a ha hkeeps
    have hkept : (keptPeers u.peers oldAddress pin.addr found).get? a = u.peers.get? a := by
      unfold keptPeers
      split
      · rename_i hrevokes
        rw [KeyedTable.get?_erase, if_neg]
        rintro rfl
        have hnonempty : a ≠ [] := by
          simp only [revokes, Bool.and_eq_true, decide_eq_true_eq] at hrevokes
          exact hrevokes.1.1
        have hmate := h.saved
        cases hentry : mates.get? pin.tname with
        | none =>
          rw [hentry, Option.getD_none] at hmate
          obtain rfl := Value.dict.inj hmate
          exact hnonempty (Except.ok.inj h.savedAddress).symm
        | some entry =>
          rw [hentry, Option.getD_some] at hmate
          exact hkeeps ⟨mates, mate, h.hasMates, hmate ▸ hentry, h.savedAddress⟩
      · rfl
    rw [hfinal a ha, hkept]
    cases hold : u.peers.get? a with
    | none => rfl
    | some key => rw [Option.map_some, (loadPeers_lowered h.loaded a key hold).2]

theorem cmdTrust_secure {home : Home} (hsafe : Safe P home) (pin : Pin) :
    (cmdTrust P home pin).Secure Home.apply (Safe P)
      (fun finished after => finished = true → Trusted P home after pin) home := by
  unfold cmdTrust
  cases hplan : planTrust P home pin with
  | error e => exact ⟨hsafe, fun hfinished => by cases hfinished⟩
  | ok u =>
    dsimp only
    split
    · obtain ⟨mates, mate, newMate, oldAddress, found, hplanned⟩ := planTrust_ok hplan
      refine Program.Secure.mono ?_ (publish_secure (hplanned.sound hsafe) hsafe)
      intro finished after _ hwritten hfinished
      obtain ⟨hstate, hfile⟩ := hwritten hfinished
      exact hplanned.trusted hstate hfile
    · exact ⟨hsafe, fun hfinished => by cases hfinished⟩

/-! ## The loop of `cmd_discover` -/

theorem unchangedSince_ok {home : Home} {st : Dict} {peers : Peers}
    (h : unchangedSince P home st peers = .ok true) : pyEq (.dict home.state) (.dict st) = true ∧
      ∃ loaded, loadPeers P home.peers = .ok loaded ∧ samePeers loaded peers = true := by
  unfold unchangedSince at h
  split at h
  · rename_i hstate
    refine ⟨hstate, ?_⟩
    cases hloaded : loadPeers P home.peers with
    | error e =>
      rw [hloaded] at h
      cases h
    | ok loaded =>
      rw [hloaded] at h
      exact ⟨loaded, rfl, Except.ok.inj h⟩
  · cases h

theorem planDiscover_ok {old st : Dict} {peers newPeers : Peers} {pin : Pin}
    (h : planDiscover P old peers pin = .ok (some (st, newPeers))) :
    ∃ mates, teammates old = .ok mates ∧
      identityChanged P pin ((mates.get? pin.tname).getD (.dict [])) = .ok false ∧
      st = dictSet (withTeammates old) (lit "teammates")
        (.dict (mates.set pin.tname (.dict (discoveredMate pin))).rows) ∧
      newPeers = peers.set pin.addr pin.pub := by
  unfold planDiscover at h
  split at h
  · cases h
  · simp only [bind_ok, pure_ok, teammates_with] at h
    obtain ⟨mates, hmates, changed, hchanged, h⟩ := h
    split at h
    · cases h
    · rename_i hsame
      obtain rfl := Bool.eq_false_iff.mpr hsame
      obtain ⟨rfl, rfl⟩ := Prod.mk.inj (Option.some.inj h)
      exact ⟨mates, hmates, hchanged, rfl, rfl⟩

/-- An entry that is taken over had the address of the pin, or none. -/
theorem unchanged_address {pin : Pin} {mate : Dict} {a : PyStr}
    (h : identityChanged P pin (.dict mate) = .ok false) (haddress : addressOf P mate = .ok a) :
    a = pin.addr ∨ a = [] := by
  cases mate with
  | nil => exact Or.inr (Except.ok.inj haddress).symm
  | cons item mate =>
    have htruthy : truthy (.dict (item :: mate)) = true := rfl
    simp only [identityChanged, htruthy, if_true, asMate, bind, Except.bind, haddress] at h
    split at h
    · cases pure_ok.mp h
    · rename_i hsame
      exact Or.inl (not_not.mp hsame)

theorem discovered_safe {home : Home} (hsafe : Safe P home) {peers newPeers : Peers} {pin : Pin} {st : Dict}
    (h : planDiscover P home.state peers pin = .ok (some (st, newPeers)))
    (hunchanged : unchangedSince P home (withTeammates home.state) peers = .ok true) :
    Safe P { home with state := st } ∧ Shown P st newPeers := by
  obtain ⟨mates, hmates, hchanged, rfl, rfl⟩ := planDiscover_ok h
  obtain ⟨_, loaded, hloaded, hpeers⟩ := unchangedSince_ok hunchanged
  have hshown : Shown P (dictSet (withTeammates home.state) (lit "teammates")
      (.dict (mates.set pin.tname (.dict (discoveredMate pin))).rows)) loaded := by
    intro a key hkey
    obtain ⟨mates', name, mate, hmates', hname, haddress⟩ := hsafe loaded hloaded a key hkey
    obtain rfl := Except.ok.inj (hmates'.symm.trans hmates)
    by_cases htname : name = pin.tname
    · subst htname
      rw [hname, Option.getD_some] at hchanged
      rcases unchanged_address hchanged haddress with rfl | hnil
      · exact visible_set (discoveredMate_address pin)
      · exact absurd hnil (loadPeers_lowered hloaded a key hkey).1
    · exact visible_of_referenced ⟨name, mate, htname, hname, haddress⟩
  refine ⟨?_, ?_⟩
  · intro others hothers a key hkey
    obtain rfl := Except.ok.inj (hloaded.symm.trans hothers)
    exact hshown a key hkey
  · intro a key hkey
    rw [KeyedTable.get?_set] at hkey
    split at hkey
    · rename_i haddr
      exact visible_set (haddr ▸ discoveredMate_address pin)
    · obtain ⟨k, hk⟩ := samePeers_absent hpeers hkey
      exact hshown a k hk

theorem cmdDiscover_secure {home : Home} (hsafe : Safe P home) (peers : Peers) (pins : List Pin) :
    (cmdDiscover P home peers pins).Secure Home.apply (Safe P) (fun _ _ => True) home := by
  induction pins generalizing home peers with
  | nil => exact ⟨hsafe, trivial⟩
  | cons pin pins ih =>
    unfold cmdDiscover
    split
    · exact ⟨hsafe, trivial⟩
    · exact ih hsafe peers
    · rename_i st newPeers hplan
      split
      · rename_i hunchanged
        obtain ⟨hstate, hshown⟩ := discovered_safe hsafe hplan hunchanged
        refine ⟨hsafe, fun published => ?_⟩
        cases published with
        | false => exact ⟨hsafe, trivial⟩
        | true =>
          simp only [if_true]
          split
          · exact ⟨hstate, trivial⟩
          · rename_i file hfile
            refine ⟨hstate, fun enabled => ?_⟩
            have hwithin : Within P { state := st, peers := file } newPeers :=
              @within_saved P { home with state := st } newPeers file hfile
            cases enabled with
            | false => exact ⟨hstate, trivial⟩
            | true => exact ih (hwithin.safe hshown) newPeers
      · exact ⟨hsafe, trivial⟩

/-! ## Runs -/

/-- A run may stop before or after any replacement, and every replacement may fail. -/
structure CrashSafe (P : Platform) (home : Home) : Prop where
  trust : ∀ (pin : Pin) events rest, Program.Runs (cmdTrust P home pin) events rest →
    Safe P (events.foldl Home.apply home)
  trusted : ∀ (pin : Pin) events, Program.Runs (cmdTrust P home pin) events (.done true) →
    Trusted P home (events.foldl Home.apply home) pin
  discover : ∀ (peers : Peers) (pins : List Pin) events rest,
    Program.Runs (cmdDiscover P home peers pins) events rest → Safe P (events.foldl Home.apply home)

theorem trust_crash_safe {home : Home} (hsafe : Safe P home) : CrashSafe P home where
  trust pin _ _ hrun := ((cmdTrust_secure hsafe pin).runs hrun).start
  trusted pin _ hrun := ((cmdTrust_secure hsafe pin).runs hrun).2 rfl
  discover peers pins _ _ hrun := ((cmdDiscover_secure hsafe peers pins).runs hrun).start

/-! ## One teammate -/

def sampleKey : Bytes := List.replicate 32 7

def sampleAddress : PyStr := Address.encode (Platform.ofTable []) sampleKey

/-- One teammate, who is authorised. -/
def sampleHome : Home where
  state := [(lit "teammates", .dict [(lit "bo", .dict [(lit "address", .str sampleAddress)])])]
  peers := [(sampleAddress, .str (hex sampleKey))]

theorem sampleHome_safe : Safe (Platform.ofTable []) sampleHome := by
  intro peers hpeers a key hkey
  have hvalid : validateAddressPublicKey (Platform.ofTable []) sampleAddress (hex sampleKey) = .ok sampleKey :=
    validateAddressPublicKey_of_hex _ (fromhex_hex sampleKey) rfl
  have hload := @loadPeer_saved (Platform.ofTable []) .empty _ _ _ hvalid rfl
  rw [loadPeers, sampleHome, List.foldlM_cons, hload] at hpeers
  obtain rfl := pure_ok.mp hpeers
  rw [KeyedTable.get?_set] at hkey
  split at hkey
  · rename_i ha
    subst ha
    exact ⟨_, lit "bo", _, rfl, rfl, rfl⟩
  · cases hkey

/-- The same teammate under a new key. -/
def rotatedKey : Bytes := List.replicate 32 8

def rotation : Pin :=
  ⟨lit "bo", Address.encode (Platform.ofTable []) rotatedKey, hex rotatedKey, [], none⟩

/-- Every replacement goes through. -/
def allWritten : Saves Bool → List (Program.Event FileOp fun _ => Bool) × Bool
  | .done answer => ([], answer)
  | .call op k => (⟨op, true⟩ :: (allWritten (k true)).1, (allWritten (k true)).2)

theorem allWritten_runs (p : Saves Bool) : Program.Runs p (allWritten p).1 (.done (allWritten p).2) := by
  induction p with
  | done answer => exact .stop _
  | call op k ih => exact Program.Runs.step (R := fun _ => Bool) op k true (ih true)

/-- The old address goes first, then the state is replaced, and the new address comes last; the process may
also stop in between. -/
theorem sampleHome_crash_safe : CrashSafe (Platform.ofTable []) sampleHome ∧
    ∃ events, Program.Runs (cmdTrust (Platform.ofTable []) sampleHome rotation) events (.done true) ∧
      events.length = 3 ∧ Safe (Platform.ofTable []) (events.foldl Home.apply sampleHome) ∧
      Trusted (Platform.ofTable []) sampleHome (events.foldl Home.apply sampleHome) rotation ∧
      ((events.foldl Home.apply sampleHome).peers.map Prod.fst) = [rotation.addr] := by
  have hsafe := trust_crash_safe sampleHome_safe
  have hwritten : (allWritten (cmdTrust (Platform.ofTable []) sampleHome rotation)).2 = true ∧
      (allWritten (cmdTrust (Platform.ofTable []) sampleHome rotation)).1.length = 3 ∧
      (((allWritten (cmdTrust (Platform.ofTable []) sampleHome rotation)).1.foldl Home.apply
        sampleHome).peers.map Prod.fst) = [rotation.addr] := by
    decide +kernel
  have hrun := allWritten_runs (cmdTrust (Platform.ofTable []) sampleHome rotation)
  rw [hwritten.1] at hrun
  exact ⟨hsafe, _, hrun, hwritten.2.1, hsafe.trust rotation _ _ hrun, hsafe.trusted rotation _ hrun,
    hwritten.2.2⟩

end Rdap.Cli
