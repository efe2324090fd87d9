import Rdap.Cli.TrustUpdates
import Rdap.Identity.WhoamiWalk
import Rdap.Lib.Machine
import Rdap.Python.Paths

/-!
# Commands on one state file

Processes read `rdap.json`, change it and replace it. All of them but `cmd_raven_bind` hold the lock of the state
from their last reading to the writing. A run is any interleaving of their steps.
-/

set_option autoImplicit false

namespace Rdap.Cli
open Python Json Lib Identity Protocol

/-! ## What the commands make of the state -/

def ravenBindEntry (who : PublicWhoami) (source : PyStr) : Dict := [
  (lit "schema", .str whoamiSchema),
  (lit "source", .str source),
  (lit "hold", .bool true),
  (lit "release", .bool false),
  (lit "confidential", .bool false),
  (lit "carrier", .str (lit "http_signed")),
  (lit "pin", .dict who.pinDict)]

def bindFields (who : PublicWhoami) (source : PyStr) : Dict := [
  (lit "address", .str who.address),
  (lit "public_key", .str who.publicKey),
  (lit "fingerprint", .str who.fingerprint),
  (lit "raven_bind", .dict (ravenBindEntry who source))]

def bindKeys : List PyStr := [lit "address", lit "public_key", lit "fingerprint", lit "raven_bind"]

/-- `apply_bind` -/
def applyBind (st : Dict) (who : PublicWhoami) (source : PyStr) : Dict := dictUpdate st (bindFields who source)

/-- The document that `bound_principal` parses. -/
def boundDocument (st : Dict) (address publicKey : PyStr) : Dict := [
  (lit "schema", .str whoamiSchema),
  (lit "address", .str address),
  (lit "public_key", .str publicKey),
  (lit "fingerprint", st.getD (lit "fingerprint") (.str []))]

/-- What `cmd_init` was told, and the keys that `ensure_keys` finds or makes. -/
structure Setup where
  name : PyStr
  role : PyStr
  repo : PyStr
  internet : Bool
  keys : PyStr × PyStr

/-- What `st` is updated with. -/
def initFields (setup : Setup) (address publicKey : PyStr) : Dict := [
  (lit "internet", .bool setup.internet),
  (lit "name", .str setup.name),
  (lit "role", .str setup.role),
  (lit "repo", .str setup.repo),
  (lit "address", .str address),
  (lit "public_key", .str publicKey)]

/-- From the state as it was read first and as it is read again. -/
def initState (st current : Dict) (setup : Setup) (address publicKey : PyStr) : Except PyExc Dict := do
  let named := current.getD (lit "name") .none
  orRaise (truthy named = false ∨ pyEq named (.str setup.name) = true)
    (lit "another init completed concurrently with a different name")
  return dictUpdate current (dictUpdate st (initFields setup address publicKey))

structure Selection where
  provider : PyStr
  model : PyStr
  baseUrl : PyStr

def Selection.entry (s : Selection) : Dict :=
  [(lit "provider", .str s.provider), (lit "model", .str s.model), (lit "base_url", .str s.baseUrl)]

def selectModel (st : Dict) (s : Selection) : Except PyExc Dict := do
  orRaise (truthy (st.getD (lit "name") .none) = true) (lit "RDAP state changed while selecting a model")
  return dictSet st (lit "llm") (.dict s.entry)

/-- A verified endpoint of a teammate. -/
structure Observation where
  name : PyStr
  address : PyStr
  publicKey : PyStr
  updates : Object

section
variable (P : Platform) (L : Letters)

def boundPrincipal (st : Dict) : Except PyExc (Option PublicWhoami) :=
  match st.getD (lit "raven_bind") .none with
  | .dict _ => do
    let address ← pyStr P (pyOr (st.getD (lit "address") .none) (.str []))
    let publicKey ← pyStr P (pyOr (st.getD (lit "public_key") .none) (.str []))
    if strip address = [] ∨ strip publicKey = [] then return none
    else match parsePublicWhoami P L (.dict (boundDocument st (strip address) (strip publicKey))) with
      | .ok who => return some who
      | .error (.other e) => if e.kind.isValueError then return none else .error e
      | .error _ => return none
  | _ => .ok none

/-- The principal that `cmd_init` writes. -/
def initPrincipal (st : Dict) (setup : Setup) : Except PyExc (PyStr × PyStr) := do
  match ← boundPrincipal P L st with
  | some who => return (who.address, who.publicKey)
  | none => return setup.keys

/-- `_merge_teammate_state` -/
def mergeTeammate (st : Dict) (o : Observation) : Except PyExc Dict := do
  orRaise (∀ item ∈ o.updates.rows, item.1 = lit "url" ∨ item.1 = lit "mailbox")
    (lit "unsupported teammate state update")
  match st.getD (lit "teammates") .none with
  | .dict items =>
    match (KeyedTable.ofRows items).get? o.name with
    | some (.dict mate) => do
      let address ← addressOf P mate
      let publicKey ← pyStr P (Dict.getD mate (lit "public_key") (.str []))
      orRaise (address = o.address ∧ publicKey = o.publicKey) (lit "teammate identity changed while probing it")
      let mates := (KeyedTable.ofRows items).set o.name (.dict (dictUpdate mate o.updates.rows))
      return dictSet st (lit "teammates") (.dict mates.rows)
    | _ => .error ⟨.runtimeError, lit "teammate changed while probing it"⟩
  | _ => .error ⟨.runtimeError, lit "teammate state is unavailable"⟩

end

/-! ## Changes -/

/-- What a command did to the state when it wrote it. -/
inductive Change where
  | bound (who : PublicWhoami) (source : PyStr)
  /-- `same` if the principal was there before. -/
  | initialized (setup : Setup) (address publicKey : PyStr) (same : Bool)
  | trusted (pin : Pin)
  | selected (s : Selection)
  | merged (o : Observation)

def Change.isBind : Change → Bool
  | .bound _ _ => true
  | _ => false

/-- Where a command writes: a member of the state, or one of an entry of its teammates. -/
inductive Place where
  | top (key : PyStr)
  | mate (name key : PyStr)

def Place.path : Place → List PyStr
  | .top key => [key]
  | .mate name key => [lit "teammates", name, key]

/-- The command's own change: what stands where. -/
def Change.fields : Change → List (Place × Value)
  | .bound who source => (bindFields who source).map fun item => (.top item.1, item.2)
  | .initialized setup address publicKey _ =>
    (initFields setup address publicKey).map fun item => (.top item.1, item.2)
  | .trusted pin =>
    [(.mate pin.tname (lit "address"), .str pin.addr), (.mate pin.tname (lit "public_key"), .str pin.pub)] ++
      (if pin.verifiedUrl ≠ [] then [(.mate pin.tname (lit "url"), .str pin.verifiedUrl)] else []) ++
      (pin.mailbox.map fun mailbox => (.mate pin.tname (lit "mailbox"), mailbox)).toList
  | .selected s => [(.top (lit "llm"), .dict s.entry)]
  | .merged o => o.updates.rows.map fun item => (.mate o.name item.1, item.2)

/-- Where the state may differ after the change. -/
def Change.Touches : Change → Place → Prop
  | .bound _ _, place => ∃ key ∈ bindKeys, place = .top key
  | .initialized _ _ _ same, place =>
    ∃ key ∈ [lit "internet", lit "name", lit "role", lit "repo"] ++
      (if same then [] else [lit "address", lit "public_key"]), place = .top key
  | .trusted pin, place => place = .top (lit "teammates") ∨ ∃ key, place = .mate pin.tname key
  | .selected _, place => place = .top (lit "llm")
  | .merged o, place => place = .top (lit "teammates") ∨ ∃ item ∈ o.updates.rows, place = .mate o.name item.1

/-- A later change of the same kind: at the same place, and a bound principal is replaced by another one only. -/
def Change.Replaces (c old : Change) (place : Place) : Prop :=
  c.Touches place ∧ (old.isBind = true → c.isBind = true)

/-! ## Processes -/

inductive Command where
  | init (setup : Setup)
  | ravenBind (document : Value) (source : PyStr)
  | trust (pin : Pin)
  | discover (pins : List Pin)
  | model (s : Selection)
  | merge (o : Observation)

/-- What a process takes the lock for. -/
inductive Locking where
  | init (setup : Setup)
  | trust (seen : Home) (pin : Pin) (u : Update)
  | discover (st : Dict) (peers : Peers) (pin : Pin) (newState : Dict) (newPeers : Peers) (pins : List Pin)
  | model (s : Selection)
  | merge (o : Observation)

/-- Where a write stands: the state is still as it was read, or it was written, or that failed. -/
inductive Stage where
  | before (seen : Object)
  | written
  | failed

inductive Phase where
  | idle
  | running (c : Command)
  /-- `cmd_raven_bind` has read the state. -/
  | binding (seen : Object) (who : PublicWhoami) (source : PyStr)
  /-- `cmd_trust` has read the state, not yet the peers. -/
  | trusting (seen : Object) (pin : Pin)
  /-- `cmd_discover` likewise. -/
  | discovering (seen : Object) (pins : List Pin)
  /-- The loop of `cmd_discover`, with its state and its peers in memory. -/
  | scanning (st : Dict) (peers : Peers) (pins : List Pin)
  | waiting (c : Locking)
  | holding (c : Locking)
  /-- `cmd_init` has read the state once. -/
  | settling (setup : Setup) (seen : Object)
  | saving (p : Saves Bool) (stage : Stage) (change : Change) (next : Phase)

/-- The files, the lock of the state, the processes and what they did, the last first. -/
structure World where
  state : Object
  peers : Dict
  holder : Option Nat
  processes : Nat → Phase
  commits : List Change
  reported : List Change

def World.home (w : World) : Home := ⟨w.state.rows, w.peers⟩

/-- A process without the lock goes on. -/
def World.goto (w : World) (i : Nat) (phase : Phase) : World :=
  { w with processes := Function.update w.processes i phase }

/-- The holder of the lock releases it. -/
def World.release (w : World) (i : Nat) (phase : Phase) : World := { w.goto i phase with holder := none }

def World.write (w : World) (new : Dict) (change : Change) : World :=
  { w with state := .ofRows new, commits := change :: w.commits }

def World.report (w : World) (change : Change) : World := { w with reported := change :: w.reported }

section
variable (P : Platform) (L : Letters)

/-- The state is written before the peer is enabled. -/
def saveDiscovered (newState : Dict) (newPeers : Peers) : Saves Bool :=
  .call (.saveState newState) fun published => if published then savePeers P newPeers else .done false

/-- The first step, without the lock. Checks that only end a command are left out. -/
def begin (w : World) : Command → Phase
  | .init setup => .waiting (.init setup)
  | .ravenBind document source =>
    match parsePublicWhoami P L document with
    | .ok who => .binding w.state who source
    | .error _ => .idle
  | .trust pin => .trusting w.state pin
  | .discover pins => .discovering w.state pins
  | .model s => .waiting (.model s)
  | .merge o => .waiting (.merge o)

def readPeers (w : World) (seen : Object) (pin : Pin) : Phase :=
  match planTrust P ⟨seen.rows, w.peers⟩ pin with
  | .ok u => .waiting (.trust ⟨seen.rows, w.peers⟩ pin u)
  | .error _ => .idle

/-- One turn of the loop up to the lock. -/
def scan (st : Dict) (peers : Peers) : List Pin → Phase
  | [] => .idle
  | pin :: pins =>
    match planDiscover P st peers pin with
    | .ok (some (newState, newPeers)) => .waiting (.discover st peers pin newState newPeers pins)
    | .ok none => .scanning st peers pins
    | .error _ => .idle

/-- The only write of a command, if it has found what to write. -/
def saveOnly (seen : Object) (change : Change) : Except PyExc Dict → Phase
  | .ok new => .saving (Program.perform (.saveState new)) (.before seen) change .idle
  | .error _ => .idle

/-- The first reading under the lock. -/
def enter (w : World) : Locking → Phase
  | .init setup =>
    if truthy (Dict.getD w.state.rows (lit "name") .none) then .idle else .settling setup w.state
  | .trust seen pin u =>
    match unchangedSince P w.home seen.state u.peers with
    | .ok true => .saving (publish P u) (.before w.state) (.trusted pin) .idle
    | _ => .idle
  | .discover st peers pin newState newPeers pins =>
    match unchangedSince P w.home (withTeammates st) peers with
    | .ok true =>
      .saving (saveDiscovered P newState newPeers) (.before w.state) (.trusted pin)
        (.scanning newState newPeers pins)
    | _ => .idle
  | .model s => saveOnly w.state (.selected s) (selectModel w.state.rows s)
  | .merge o => saveOnly w.state (.merged o) (mergeTeammate P w.state.rows o)

/-- The second reading of `cmd_init`. -/
def settle (w : World) (setup : Setup) (seen : Object) : Phase :=
  match initPrincipal P L seen.rows setup with
  | .ok (address, publicKey) =>
    let same := pyEq (Dict.getD seen.rows (lit "address") .none) (.str address) &&
      pyEq (Dict.getD seen.rows (lit "public_key") .none) (.str publicKey)
    saveOnly seen (.initialized setup address publicKey same)
      (initState seen.rows w.state.rows setup address publicKey)
  | .error _ => .idle

/-- The holder's phase after a reading: without anything to write it is done. -/
def World.under (w : World) (i : Nat) : Phase → World
  | .idle => w.release i .idle
  | phase => w.goto i phase

/-- One step of a process; `ok` is whether it gets the lock, or its file is replaced. -/
def advance (w : World) (i : Nat) (ok : Bool) : Option World :=
  match w.processes i with
  | .idle => none
  | .running c => some (w.goto i (begin P L w c))
  | .binding seen who source =>
    if ok then some (((w.write (applyBind seen.rows who source) (.bound who source)).report
      (.bound who source)).goto i .idle)
    else some (w.goto i .idle)
  | .trusting seen pin => some (w.goto i (readPeers P w seen pin))
  | .discovering seen pins =>
    match loadPeers P w.peers with
    | .ok peers => some (w.goto i (.scanning seen.rows peers pins))
    | .error _ => some (w.goto i .idle)
  | .scanning st peers pins => some (w.goto i (scan P st peers pins))
  | .waiting c =>
    if ok then if w.holder = none then some { w.goto i (.holding c) with holder := some i } else none
    else some (w.goto i .idle)
  | .holding c => some (w.under i (enter P w c))
  | .settling setup seen => some (w.under i (settle P L w setup seen))
  | .saving (.done finished) _ change next =>
    if finished then some ((w.release i next).report change) else some (w.release i .idle)
  | .saving (.call (.saveState new) k) _ change next =>
    if ok then some ((w.write new change).goto i (.saving (k true) .written change next))
    else some (w.goto i (.saving (k false) .failed change next))
  | .saving (.call (.savePeers file) k) stage change next =>
    if ok then some ({ w with peers := file }.goto i (.saving (k true) stage change next))
    else some (w.goto i (.saving (k false) stage change next))

inductive StateEvent where
  | start (i : Nat) (c : Command)
  | step (i : Nat) (ok : Bool)
  | kill (i : Nat)

/-- The lock of a process that is killed is free. -/
def stateStep : Machine World StateEvent
  | w, .start i c =>
    match w.processes i with
    | .idle => some (w.goto i (.running c))
    | _ => none
  | w, .step i ok => advance P L w i ok
  | w, .kill i => some (if w.holder = some i then w.release i .idle else w.goto i .idle)

end

end Rdap.Cli
