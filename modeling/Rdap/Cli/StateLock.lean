import Rdap.Cli.StateWrites

/-!
# What the lock of the state keeps

Only the holder of the lock is about to write, and the state is as it read it; every change is present but for what a
later one of its kind replaced. The programs that write replace the state at most once.
-/

set_option autoImplicit false

namespace Rdap.Cli
open Python Json Lib Identity Protocol

variable {P : Platform} {L : Letters}

/-! ## Changes that are present -/

/-- Every change is in the state, but for what a later one replaced. -/
def Present (state : Object) (commits : List Change) : Prop :=
  ∀ later change earlier, commits = later ++ change :: earlier → ∀ field ∈ change.fields,
    (∃ c ∈ later, c.Replaces change field.1) ∨ field.1.classIn state.rows = some (PyClass.mk field.2)

theorem classIn_ofRows (place : Place) (d : Dict) : place.classIn (KeyedTable.ofRows d).rows = place.classIn d := by
  apply classIn_congr
  rw [KeyedTable.ofRows_rows]

theorem isBind_iff {c : Change} : c.isBind = true ↔ ∃ who source, c = .bound who source := by
  cases c <;> simp [Change.isBind]

theorem get?_of_classIn {st : Object} {key : PyStr} {c : PyClass}
    (h : (Place.top key).classIn st.rows = some c) : ∃ v, st.get? key = some v ∧ PyClass.mk v = c := by
  simp only [Place.classIn, classAt, Place.path, valueAt_key, KeyedTable.ofRows_rows, valueAt] at h
  obtain ⟨v, hv, rfl⟩ := Option.map_eq_some_iff.mp h
  exact ⟨v, by simpa using hv, rfl⟩

/-- The four members that a binding wrote. -/
theorem boundTo_of_fields {st : Object} {who : PublicWhoami} {source : PyStr}
    (h : ∀ field ∈ (Change.bound who source).fields, field.1.classIn st.rows = some (PyClass.mk field.2)) :
    BoundTo st who := by
  have hstr : ∀ key s, (Place.top key, Value.str s) ∈ (Change.bound who source).fields →
      st.get? key = some (.str s) := by
    intro key s hmem
    obtain ⟨v, hv, hclass⟩ := get?_of_classIn (h _ hmem)
    rw [hv, PyClass.str_injective hclass]
  refine ⟨hstr _ _ ?_, hstr _ _ ?_, hstr _ _ ?_, ?_⟩
  · simp [Change.fields, bindFields]
  · simp [Change.fields, bindFields]
  · simp [Change.fields, bindFields]
  · obtain ⟨v, hv, hclass⟩ := get?_of_classIn (h (.top (lit "raven_bind"), .dict (ravenBindEntry who source))
      (by simp [Change.fields, bindFields]))
    obtain ⟨items, rfl⟩ := PyClass.dict_of_mk hclass
    exact ⟨items, hv⟩

theorem bound_fields {who : PublicWhoami} {source : PyStr} {field : Place × Value}
    (h : field ∈ (Change.bound who source).fields) : ∃ key ∈ bindKeys, field.1 = .top key := by
  obtain ⟨item, hitem, rfl⟩ := List.mem_map.mp h
  exact ⟨item.1, List.mem_map_of_mem (f := Prod.fst) hitem, rfl⟩

/-- A write on the present state keeps the earlier changes. -/
theorem Present.commit {state : Object} {commits : List Change} {new : Dict} {change : Change}
    (h : Present state commits) (hgenuine : ∀ who source, .bound who source ∈ commits → ∃ key, Genuine P who key)
    (hwrites : Writes P state new change) : Present (KeyedTable.ofRows new) (change :: commits) := by
  intro later old earlier hcommits field hfield
  cases later with
  | nil =>
    obtain ⟨rfl, rfl⟩ := List.cons.inj hcommits
    right
    rw [classIn_ofRows]
    exact hwrites.fields field hfield
  | cons c later =>
    obtain ⟨rfl, rfl⟩ := List.cons.inj hcommits
    rcases h later old earlier rfl field hfield with ⟨c', hc', hreplaces⟩ | hpresent
    · exact Or.inl ⟨c', List.mem_cons_of_mem _ hc', hreplaces⟩
    by_cases htouches : change.Touches field.1
    · by_cases hkind : old.isBind = true → change.isBind = true
      · exact Or.inl ⟨change, List.mem_cons_self, htouches, hkind⟩
      -- Something else writes after a binding: it leaves the principal alone.
      push Not at hkind
      obtain ⟨who, source, rfl⟩ := isBind_iff.mp hkind.1
      obtain ⟨key, hkey, hplace⟩ := bound_fields hfield
      by_cases hlater : ∃ c ∈ later, c.isBind = true
      · obtain ⟨c, hc, hbind⟩ := hlater
        obtain ⟨who', source', rfl⟩ := isBind_iff.mp hbind
        exact Or.inl ⟨_, List.mem_cons_of_mem _ hc, ⟨key, hkey, hplace⟩, fun _ => rfl⟩
      · have hbound : BoundTo state who := by
          apply boundTo_of_fields
          intro other hother
          rcases h later _ earlier rfl other hother with ⟨c, hc, _, hbind⟩ | hclass
          · exact absurd ⟨c, hc, hbind rfl⟩ hlater
          · exact hclass
        obtain ⟨genuineKey, hgenuineKey⟩ := hgenuine who source (by simp)
        have huntouched := hwrites.bound (Bool.eq_false_iff.mpr hkind.2) who genuineKey hgenuineKey hbound key hkey
        exact absurd (hplace ▸ htouches) huntouched
    · right
      rw [classIn_ofRows, hwrites.others field.1 htouches]
      exact hpresent

/-! ## Programs that publish -/

/-- If every replacement is done it ends well, and the state is not among them. -/
def Finishes : Saves Bool → Prop
  | .done finished => finished = true
  | .call (.savePeers _) k => Finishes (k true)
  | .call (.saveState _) _ => False

/-- It does not end well, and the state is not written. -/
def Fails : Saves Bool → Prop
  | .done finished => finished = false
  | .call (.savePeers _) k => ∀ r, Fails (k r)
  | .call (.saveState _) _ => False

/-- The state is written once, and without that it does not end well. -/
def Publishes (new : Dict) : Saves Bool → Prop
  | .done finished => finished = false
  | .call (.savePeers _) k => ∀ r, Publishes new (k r)
  | .call (.saveState st) k => st = new ∧ Finishes (k true) ∧ Fails (k false)

/-- The peers that `save_peers` writes. -/
def Checked (P : Platform) (peers : Peers) : Prop :=
  ∀ a key, peers.get? a = some key → ∃ b, validateAddressPublicKey P a key = .ok b

theorem peersFile_defined {peers : Peers} (h : Checked P peers) : ∃ file, peersFile P peers = .ok file := by
  apply mapM_defined
  intro row hrow
  obtain ⟨b, hvalid⟩ := h row.1 row.2 ((peers.get?_eq_some).mpr hrow)
  exact ⟨_, by rw [hvalid]; rfl⟩

theorem Checked.set {peers : Peers} (h : Checked P peers) {address key : PyStr} {b : Bytes}
    (hvalid : validateAddressPublicKey P address key = .ok b) : Checked P (peers.set address key) := by
  intro a k hk
  rw [KeyedTable.get?_set] at hk
  split at hk
  · rename_i ha
    obtain rfl := Option.some.inj hk
    exact ⟨b, ha ▸ hvalid⟩
  · exact h a k hk

theorem loadPeers_checked {file : Dict} {peers : Peers} (h : loadPeers P file = .ok peers) : Checked P peers := by
  have hfold : ∀ {start : Peers}, Checked P start → file.foldlM (loadPeer P) start = .ok peers →
      Checked P peers := by
    clear h
    induction file with
    | nil =>
      intro start hstart h
      obtain rfl := pure_ok.mp h
      exact hstart
    | cons entry file ih =>
      intro start hstart h
      rw [List.foldlM_cons] at h
      obtain ⟨next, hnext, hrest⟩ := bind_ok.mp h
      obtain ⟨address, key, b, hvalid, rfl⟩ := loadPeer_ok hnext
      obtain ⟨hhex, hlen, haddress⟩ := validateAddressPublicKey_iff.mp hvalid
      exact ih (hstart.set (validateAddressPublicKey_iff.mpr ⟨fromhex_lower P hhex, hlen, haddress⟩)) hrest
  exact hfold (fun a key hkey => by cases hkey) h

theorem finishes_savePeers {peers : Peers} (h : Checked P peers) : Finishes (savePeers P peers) := by
  obtain ⟨file, hfile⟩ := peersFile_defined h
  rw [savePeers, hfile]
  exact rfl

theorem fails_rollback (written : Bool) (peers : Peers) :
    Fails (savePeersIf P written peers >>= fun _ => Program.done false) := by
  cases written with
  | false => exact rfl
  | true =>
    rw [savePeersIf, if_pos rfl, savePeers]
    split
    · exact rfl
    · exact fun _ => rfl

theorem publishes_publish {u : Update} (h : Checked P u.finalPeers) : Publishes u.state (publish P u) := by
  have hstate : Publishes u.state (do
      let published ← Program.perform (FileOp.saveState u.state)
      if published then savePeers P u.finalPeers
      else do
        let _ ← savePeersIf P (!samePeers u.safePeers u.peers) u.peers
        return false) := ⟨rfl, finishes_savePeers h, fails_rollback _ _⟩
  unfold publish
  cases hsame : !samePeers u.safePeers u.peers with
  | false =>
    rw [hsame] at hstate
    exact hstate
  | true =>
    rw [hsame] at hstate
    have hfirst : savePeersIf P true u.safePeers = savePeers P u.safePeers := if_pos rfl
    dsimp only
    rw [hfirst, savePeers]
    split
    · exact rfl
    · intro r
      cases r with
      | false => exact rfl
      | true => exact hstate

theorem publishes_saveDiscovered (new : Dict) {peers : Peers} (h : Checked P peers) :
    Publishes new (saveDiscovered P new peers) := ⟨rfl, finishes_savePeers h, rfl⟩

theorem publishes_only (new : Dict) : Publishes new (Program.perform (FileOp.saveState new)) := ⟨rfl, rfl, rfl⟩

theorem planTrust_checked {home : Home} {pin : Pin} {u : Update} (h : planTrust P home pin = .ok u) :
    Checked P u.finalPeers := by
  simp only [planTrust, bind_ok, pure_ok] at h
  obtain ⟨b, hvalid, _, _, _, _, _, _, _, _, peers, hpeers, found, _, _, _, rfl⟩ := h
  have hchecked := loadPeers_checked hpeers
  apply Checked.set _ hvalid
  split
  · intro a key hkey
    exact hchecked a key (get?_of_erase hkey).2
  · exact hchecked

theorem planDiscover_checked {st new : Dict} {peers newPeers : Peers} {pin : Pin} (hpeers : Checked P peers)
    (h : planDiscover P st peers pin = .ok (some (new, newPeers))) : Checked P newPeers := by
  obtain ⟨_, _, _, _, rfl⟩ := planDiscover_ok h
  unfold planDiscover at h
  split at h
  · cases h
  · rename_i b hvalid
    exact hpeers.set hvalid

/-! ## Phases -/

/-- The process has the lock. -/
def Phase.locked : Phase → Bool
  | .holding _ | .settling _ _ | .saving _ _ _ _ => true
  | _ => false

/-- The state that a holder of the lock has read and is about to replace. -/
def Phase.exposed : Phase → Option Object
  | .settling _ seen | .saving _ (.before seen) _ _ => some seen
  | _ => none

/-- The change that was written and is not reported yet. -/
def Phase.owed : Phase → Option Change
  | .saving _ .written change _ => some change
  | _ => none

/-- `cmd_raven_bind` replaces the state that it read, beside nobody who is about to do so; and who has written the
state goes on to the end. -/
def Undisturbed (w : World) : StateEvent → Prop
  | .step i ok =>
    match w.processes i with
    | .binding seen _ _ => w.state = seen ∧ ∀ j, (w.processes j).exposed = none
    | .saving _ .written _ _ => ok = true
    | _ => True
  | .kill i => (w.processes i).owed = none
  | .start _ _ => True

def LockingSound (P : Platform) : Locking → Prop
  | .trust seen pin u => (∃ t : Object, seen.state = t.rows) ∧ planTrust P seen pin = .ok u
  | .discover st peers pin newState newPeers _ =>
    (∃ t : Object, st = t.rows) ∧ Checked P peers ∧ planDiscover P st peers pin = .ok (some (newState, newPeers))
  | _ => True

/-- What a process knows, given the changes that were written. -/
def PhaseSound (P : Platform) (commits : List Change) : Phase → Prop
  | .binding _ who _ => ∃ key, Genuine P who key
  | .scanning st peers _ => (∃ t : Object, st = t.rows) ∧ Checked P peers
  | .waiting c | .holding c => LockingSound P c
  | .saving p stage change next =>
    match stage with
    | .before seen => ∃ new, Publishes new p ∧ Writes P seen new change ∧ change.isBind = false ∧
        next.locked = false ∧ PhaseSound P commits next
    | .written => Finishes p ∧ change ∈ commits ∧ next.locked = false ∧ PhaseSound P commits next
    | .failed => Fails p
  | _ => True

theorem PhaseSound.commit {commits : List Change} {phase : Phase} (h : PhaseSound P commits phase) (c : Change) :
    PhaseSound P (c :: commits) phase := by
  induction phase with
  | saving p stage change next ih =>
    cases stage with
    | before seen =>
      obtain ⟨new, hpublishes, hwrites, hbind, hlocked, hnext⟩ := h
      exact ⟨new, hpublishes, hwrites, hbind, hlocked, ih hnext⟩
    | written =>
      obtain ⟨hfinishes, hmem, hlocked, hnext⟩ := h
      exact ⟨hfinishes, List.mem_cons_of_mem _ hmem, hlocked, ih hnext⟩
    | failed => exact h
  | _ => exact h

theorem exposed_of_unlocked {phase : Phase} (h : phase.locked = false) : phase.exposed = none := by
  cases phase <;> first | rfl | cases h

/-- What holds of the whole. -/
structure Kept (P : Platform) (w : World) : Prop where
  lock : ∀ i, (w.processes i).locked = true → w.holder = some i
  base : ∀ i seen, (w.processes i).exposed = some seen → w.state = seen
  sound : ∀ i, PhaseSound P w.commits (w.processes i)
  present : Present w.state w.commits
  genuine : ∀ who source, .bound who source ∈ w.commits → ∃ key, Genuine P who key
  reported : ∀ c ∈ w.reported, c ∈ w.commits
  complete : ∀ c ∈ w.commits, c ∈ w.reported ∨ ∃ i, (w.processes i).owed = some c

section
variable {w : World} {i : Nat} {phase : Phase} (h : Kept P w)
include h

theorem Kept.goto (hlock : phase.locked = true → w.holder = some i)
    (hbase : ∀ seen, phase.exposed = some seen → w.state = seen) (hsound : PhaseSound P w.commits phase)
    (howed : ∀ c, (w.processes i).owed = some c → phase.owed = some c ∨ c ∈ w.reported) :
    Kept P (w.goto i phase) where
  lock j hj := by
    by_cases hji : j = i
    · subst hji
      exact hlock (by simpa [World.goto] using hj)
    · exact h.lock j (by simpa [World.goto, hji] using hj)
  base j seen hj := by
    by_cases hji : j = i
    · subst hji
      exact hbase seen (by simpa [World.goto] using hj)
    · exact h.base j seen (by simpa [World.goto, hji] using hj)
  sound j := by
    by_cases hji : j = i
    · subst hji
      simpa [World.goto] using hsound
    · simpa [World.goto, hji] using h.sound j
  present := h.present
  genuine := h.genuine
  reported := h.reported
  complete c hc := by
    rcases h.complete c hc with hreported | ⟨j, hj⟩
    · exact Or.inl hreported
    · by_cases hji : j = i
      · subst hji
        rcases howed c hj with hphase | hreported
        · exact Or.inr ⟨j, by simpa [World.goto] using hphase⟩
        · exact Or.inl hreported
      · exact Or.inr ⟨j, by simpa [World.goto, hji] using hj⟩

/-- A phase without the lock. -/
theorem Kept.leave (hunlocked : phase.locked = false) (hsound : PhaseSound P w.commits phase)
    (howed : ∀ c, (w.processes i).owed = some c → c ∈ w.reported) : Kept P (w.goto i phase) := by
  apply h.goto
  · rw [hunlocked]
    exact fun hfalse => by cases hfalse
  · rw [exposed_of_unlocked hunlocked]
    exact fun _ hnone => by cases hnone
  · exact hsound
  · exact fun c hc => Or.inr (howed c hc)

/-- When the holder releases the lock nobody has it. -/
theorem Kept.release (hheld : w.holder = some i) (hunlocked : phase.locked = false)
    (hsound : PhaseSound P w.commits phase) (howed : ∀ c, (w.processes i).owed = some c → c ∈ w.reported) :
    Kept P (w.release i phase) := by
  have hgone := h.leave hunlocked hsound howed
  refine ⟨?_, hgone.base, hgone.sound, hgone.present, hgone.genuine, hgone.reported, hgone.complete⟩
  intro j hj
  have hj' : ((w.goto i phase).processes j).locked = true := hj
  have hholder : some i = some j := hheld.symm.trans (hgone.lock j hj')
  obtain rfl := Option.some.inj hholder
  have hlocked : phase.locked = true := by simpa [World.goto] using hj'
  exact absurd (hunlocked.symm.trans hlocked) (by decide)

/-- Nobody has the lock that a process gets. -/
theorem Kept.acquire (hfree : w.holder = none) (hexposed : phase.exposed = none)
    (hsound : PhaseSound P w.commits phase) (howed : ∀ c, (w.processes i).owed = some c → c ∈ w.reported) :
    Kept P { w.goto i phase with holder := some i } where
  lock j hj := by
    by_cases hji : j = i
    · exact congrArg some hji.symm
    · have hlocked : (w.processes j).locked = true := by simpa [World.goto, hji] using hj
      have hheld := h.lock j hlocked
      rw [hfree] at hheld
      cases hheld
  base j seen hj := by
    by_cases hji : j = i
    · subst hji
      have hphase : phase.exposed = some seen := by simpa [World.goto] using hj
      rw [hexposed] at hphase
      cases hphase
    · exact h.base j seen (by simpa [World.goto, hji] using hj)
  sound j := by
    by_cases hji : j = i
    · subst hji
      simpa [World.goto] using hsound
    · simpa [World.goto, hji] using h.sound j
  present := h.present
  genuine := h.genuine
  reported := h.reported
  complete c hc := by
    rcases h.complete c hc with hreported | ⟨j, hj⟩
    · exact Or.inl hreported
    · by_cases hji : j = i
      · subst hji
        exact Or.inl (howed c hj)
      · exact Or.inr ⟨j, by simpa [World.goto, hji] using hj⟩

/-- A reading under the lock. -/
theorem Kept.under (hheld : w.holder = some i) (hbase : ∀ seen, phase.exposed = some seen → w.state = seen)
    (hsound : PhaseSound P w.commits phase) (howed : ∀ c, (w.processes i).owed = some c → c ∈ w.reported) :
    Kept P (w.under i phase) := by
  have hgo : Kept P (w.goto i phase) := h.goto (fun _ => hheld) hbase hsound fun c hc => Or.inr (howed c hc)
  cases phase with
  | idle => exact h.release hheld rfl trivial howed
  | _ => exact hgo

/-- A write on what was read, beside nobody who is about to write. -/
theorem Kept.commit {new : Dict} {change : Change} {reported : List Change}
    (hwrites : Writes P w.state new change)
    (hgenuine : ∀ who source, change = .bound who source → ∃ key, Genuine P who key)
    (hothers : ∀ j ≠ i, (w.processes j).exposed = none) (howed : (w.processes i).owed = none)
    (hlock : phase.locked = true → w.holder = some i) (hexposed : phase.exposed = none)
    (hsound : PhaseSound P (change :: w.commits) phase)
    (hreported : reported = w.reported ∧ phase.owed = some change ∨ reported = change :: w.reported) :
    Kept P ({ w.write new change with reported := reported }.goto i phase) where
  lock j hj := by
    by_cases hji : j = i
    · subst hji
      exact hlock (by simpa [World.goto] using hj)
    · exact h.lock j (by simpa [World.goto, World.write, hji] using hj)
  base j seen hj := by
    by_cases hji : j = i
    · subst hji
      have hphase : phase.exposed = some seen := by simpa [World.goto] using hj
      rw [hexposed] at hphase
      cases hphase
    · have hphase : (w.processes j).exposed = some seen := by simpa [World.goto, World.write, hji] using hj
      rw [hothers j hji] at hphase
      cases hphase
  sound j := by
    by_cases hji : j = i
    · subst hji
      simpa [World.goto, World.write] using hsound
    · simpa [World.goto, World.write, hji] using (h.sound j).commit change
  present := h.present.commit h.genuine hwrites
  genuine who source hmem := by
    rcases List.mem_cons.mp hmem with heq | hmem
    · exact hgenuine who source heq.symm
    · exact h.genuine who source hmem
  reported c hc := by
    rcases hreported with ⟨rfl, _⟩ | rfl
    · exact List.mem_cons_of_mem _ (h.reported c hc)
    · rcases List.mem_cons.mp hc with rfl | hc
      · exact List.mem_cons_self
      · exact List.mem_cons_of_mem _ (h.reported c hc)
  complete c hc := by
    have hold : c ∈ w.commits → c ∈ w.reported ∨ ∃ j, j ≠ i ∧ (w.processes j).owed = some c := by
      intro hmem
      rcases h.complete c hmem with hdone | ⟨j, hj⟩
      · exact Or.inl hdone
      · refine Or.inr ⟨j, ?_, hj⟩
        rintro rfl
        rw [howed] at hj
        cases hj
    have hlater : w.reported ⊆ reported := by
      rcases hreported with ⟨rfl, _⟩ | rfl
      · exact List.Subset.refl _
      · exact List.subset_cons_self _ _
    rcases List.mem_cons.mp hc with rfl | hc
    · rcases hreported with ⟨_, hphase⟩ | rfl
      · exact Or.inr ⟨i, by simpa [World.goto] using hphase⟩
      · exact Or.inl List.mem_cons_self
    · rcases hold hc with hdone | ⟨j, hji, hj⟩
      · exact Or.inl (hlater hdone)
      · exact Or.inr ⟨j, by simpa [World.goto, World.write, hji] using hj⟩

end

end Rdap.Cli
