import Rdap.Cli.StateLock

/-!
# No update of the state is lost

The lock keeps the state as its holder read it, but for `cmd_raven_bind`, which does not take it. As long as that
command writes on what it read, and beside nobody who is about to write, each change stays until a later one of its
kind.
-/

set_option autoImplicit false

namespace Rdap.Cli
open Python Json Lib Identity Protocol

variable {P : Platform} {L : Letters}

/-! ## Readings -/

theorem begin_sound (w : World) (c : Command) : (begin P L w c).locked = false ∧
    PhaseSound P w.commits (begin P L w c) := by
  cases c with
  | ravenBind document source =>
    cases hparse : parsePublicWhoami P L document with
    | ok who =>
      simp only [begin, hparse]
      exact ⟨rfl, genuine_of_parse hparse⟩
    | error e =>
      simp only [begin, hparse]
      exact ⟨rfl, trivial⟩
  | _ => exact ⟨rfl, trivial⟩

theorem readPeers_sound (w : World) (seen : Object) (pin : Pin) : (readPeers P w seen pin).locked = false ∧
    PhaseSound P w.commits (readPeers P w seen pin) := by
  unfold readPeers
  split
  · rename_i u hplan
    exact ⟨rfl, ⟨seen, rfl⟩, hplan⟩
  · exact ⟨rfl, trivial⟩

theorem scan_sound {commits : List Change} {st : Dict} {peers : Peers} (pins : List Pin)
    (hst : ∃ t : Object, st = t.rows) (hpeers : Checked P peers) :
    (scan P st peers pins).locked = false ∧ PhaseSound P commits (scan P st peers pins) := by
  cases pins with
  | nil => exact ⟨rfl, trivial⟩
  | cons pin pins =>
    dsimp only [scan]
    split
    · rename_i newState newPeers hplan
      exact ⟨rfl, hst, hpeers, hplan⟩
    · exact ⟨rfl, hst, hpeers⟩
    · exact ⟨rfl, trivial⟩

/-- What a reading under the lock leaves is based on the present state. -/
def Based (P : Platform) (w : World) (phase : Phase) : Prop :=
  (∀ seen, phase.exposed = some seen → w.state = seen) ∧ PhaseSound P w.commits phase

theorem based_idle (w : World) : Based P w .idle := ⟨fun _ h => (by cases h), trivial⟩

theorem based_saving {w : World} {p : Saves Bool} {new : Dict} {change : Change} {next : Phase}
    (hp : Publishes new p) (hwrites : Writes P w.state new change) (hbind : change.isBind = false)
    (hlocked : next.locked = false) (hnext : PhaseSound P w.commits next) :
    Based P w (.saving p (.before w.state) change next) :=
  ⟨fun _ h => Option.some.inj h, new, hp, hwrites, hbind, hlocked, hnext⟩

theorem based_saveOnly {w : World} {change : Change} {result : Except PyExc Dict}
    (hwrites : ∀ new, result = .ok new → Writes P w.state new change) (hbind : change.isBind = false) :
    Based P w (saveOnly w.state change result) := by
  cases result with
  | error e => exact based_idle w
  | ok new => exact based_saving (publishes_only new) (hwrites new rfl) hbind rfl trivial

theorem enter_based (w : World) {c : Locking} (h : LockingSound P c) : Based P w (enter P w c) := by
  cases c with
  | init setup =>
    dsimp only [enter]
    split
    · exact based_idle w
    · exact ⟨fun _ h => Option.some.inj h, trivial⟩
  | trust seen pin u =>
    obtain ⟨⟨t, hst⟩, hplan⟩ := h
    dsimp only [enter]
    split
    · rename_i hunchanged
      obtain ⟨mates, mate, hmates, hentry, hnew⟩ := planTrust_entry hplan
      obtain ⟨hsame, _⟩ := unchangedSince_ok hunchanged
      have hwrites : Writes P w.state u.state (.trusted pin) := by
        rw [hst] at hmates hnew hsame
        rw [hnew]
        exact writes_trusted hsame (Or.inl rfl) hmates hentry
      exact based_saving (publishes_publish (planTrust_checked hplan)) hwrites rfl rfl trivial
    · exact based_idle w
  | discover st peers pin newState newPeers pins =>
    obtain ⟨⟨t, rfl⟩, hpeers, hplan⟩ := h
    dsimp only [enter]
    split
    · rename_i hunchanged
      obtain ⟨mates, mate, hmates, hentry, rfl⟩ := planDiscover_entry hplan
      obtain ⟨hsame, _⟩ := unchangedSince_ok hunchanged
      obtain ⟨u, hrows, _⟩ := withTeammates_rows t
      have hnewPeers := planDiscover_checked hpeers hplan
      have hstate : ∃ t' : Object, dictSet (withTeammates t.rows) (lit "teammates")
          (.dict (mates.set pin.tname (.dict mate)).rows) = t'.rows := ⟨_, by rw [hrows, dictSet_rows]⟩
      exact based_saving (publishes_saveDiscovered _ hnewPeers)
        (writes_trusted hsame (Or.inr rfl) hmates hentry) rfl rfl ⟨hstate, hnewPeers⟩
    · exact based_idle w
  | model s => exact based_saveOnly (fun _ hnew => writes_selected hnew) rfl
  | merge o => exact based_saveOnly (fun _ hnew => writes_merged hnew) rfl

theorem settle_based (w : World) (setup : Setup) : Based P w (settle P L w setup w.state) := by
  unfold settle
  split
  · rename_i address publicKey hprincipal
    exact based_saveOnly (fun _ hnew => writes_initialized hprincipal rfl hnew) rfl
  · exact based_idle w

/-! ## Steps -/

/-- Only the holder of the lock is about to write. -/
theorem Kept.others {w : World} (h : Kept P w) {i : Nat} (hheld : w.holder = some i) :
    ∀ j ≠ i, (w.processes j).exposed = none := by
  intro j hji
  cases hexposed : (w.processes j).exposed with
  | none => rfl
  | some seen =>
    have hlocked : (w.processes j).locked = true := by
      cases hlocked : (w.processes j).locked with
      | true => rfl
      | false =>
        rw [exposed_of_unlocked hlocked] at hexposed
        cases hexposed
    have hholder : some i = some j := hheld.symm.trans (h.lock j hlocked)
    exact absurd (Option.some.inj hholder).symm hji

theorem Kept.report {w : World} (h : Kept P w) {change : Change} (hmem : change ∈ w.commits) :
    Kept P (w.report change) :=
  { h with
    reported := fun c hc => by
      rcases List.mem_cons.mp hc with rfl | hc
      · exact hmem
      · exact h.reported c hc
    complete := fun c hc => (h.complete c hc).imp_left (List.mem_cons_of_mem _) }

/-- A step of the program that a holder of the lock writes with. -/
theorem kept_saving {w t : World} {i : Nat} {ok : Bool} {p : Saves Bool} {stage : Stage} {change : Change}
    {next : Phase} (h : Kept P w) (hphase : w.processes i = .saving p stage change next)
    (hundisturbed : Undisturbed w (.step i ok)) (hstep : advance P L w i ok = some t) : Kept P t := by
  have hsound := h.sound i
  have hheld : w.holder = some i := h.lock i (by rw [hphase]; rfl)
  have hbase := h.base i
  have howed : ∀ c, (w.processes i).owed = some c → (Phase.saving p stage change next).owed = some c := by
    rw [hphase]
    exact fun _ => id
  simp only [Undisturbed, hphase] at hundisturbed
  simp only [advance, hphase] at hstep
  rw [hphase] at hsound hbase
  cases p with
  | done finished =>
    cases stage with
    | written =>
      obtain ⟨hfinished, hmem, hlocked, hnext⟩ := hsound
      obtain rfl : finished = true := hfinished
      obtain rfl := Option.some.inj hstep
      apply (h.report hmem).release hheld hlocked hnext
      intro c hc
      obtain rfl := Option.some.inj (howed c hc)
      exact List.mem_cons_self
    | before seen =>
      obtain ⟨_, hfinished, _⟩ := hsound
      obtain rfl : finished = false := hfinished
      obtain rfl := Option.some.inj hstep
      exact h.release hheld rfl trivial fun c hc => by cases howed c hc
    | failed =>
      obtain rfl : finished = false := hsound
      obtain rfl := Option.some.inj hstep
      exact h.release hheld rfl trivial fun c hc => by cases howed c hc
  | call op k =>
    cases op with
    | saveState st =>
      cases stage with
      | written => exact absurd hsound.1 id
      | failed => exact absurd hsound id
      | before seen =>
        obtain ⟨new, ⟨rfl, hfinishes, hfails⟩, hwrites, hbind, hlocked, hnext⟩ := hsound
        obtain rfl := hbase seen rfl
        cases ok with
        | true =>
          obtain rfl := Option.some.inj hstep
          refine h.commit hwrites ?_ (h.others hheld) ?_ (fun _ => hheld) rfl
            ⟨hfinishes, List.mem_cons_self, hlocked, hnext.commit change⟩ (Or.inl ⟨rfl, rfl⟩)
          · rintro who source rfl
            cases hbind
          · rw [hphase]
            rfl
        | false =>
          obtain rfl := Option.some.inj hstep
          exact h.goto (fun _ => hheld) (fun _ hnone => by cases hnone) hfails fun c hc => by cases howed c hc
    | savePeers file =>
      -- The peers are not looked at here.
      have hpeers : Kept P { w with peers := file } := { h with }
      cases ok with
      | true =>
        obtain rfl := Option.some.inj hstep
        refine hpeers.goto (fun _ => hheld) ?_ ?_ fun c hc => Or.inl ?_
        · cases stage <;> exact hbase
        · cases stage with
          | before seen =>
            obtain ⟨new, hpublishes, hrest⟩ := hsound
            exact ⟨new, hpublishes true, hrest⟩
          | written => exact hsound
          | failed => exact hsound true
        · cases stage <;> exact howed c hc
      | false =>
        obtain rfl := Option.some.inj hstep
        cases stage with
        | before seen =>
          obtain ⟨new, hpublishes, hrest⟩ := hsound
          exact h.goto (fun _ => hheld) hbase ⟨new, hpublishes false, hrest⟩ fun c hc => Or.inl (howed c hc)
        | written => cases hundisturbed
        | failed => exact h.goto (fun _ => hheld) hbase (hsound false) fun c hc => Or.inl (howed c hc)

theorem kept_advance {w t : World} {i : Nat} {ok : Bool} (h : Kept P w) (hundisturbed : Undisturbed w (.step i ok))
    (hstep : advance P L w i ok = some t) : Kept P t := by
  have hsound := h.sound i
  have hlock := h.lock i
  have hbase := h.base i
  have hnothing : (w.processes i).owed = none → ∀ c, (w.processes i).owed = some c → c ∈ w.reported := by
    intro hnone c hc
    rw [hnone] at hc
    cases hc
  cases hphase : w.processes i with
  | saving p stage change next => exact kept_saving h hphase hundisturbed hstep
  | idle =>
    simp only [advance, hphase] at hstep
    cases hstep
  | running c =>
    simp only [advance, hphase] at hstep
    obtain rfl := Option.some.inj hstep
    obtain ⟨hunlocked, hsound⟩ := @begin_sound P L w c
    exact h.leave hunlocked hsound (hnothing (by rw [hphase]; rfl))
  | trusting seen pin =>
    simp only [advance, hphase] at hstep
    obtain rfl := Option.some.inj hstep
    obtain ⟨hunlocked, hsound⟩ := @readPeers_sound P w seen pin
    exact h.leave hunlocked hsound (hnothing (by rw [hphase]; rfl))
  | discovering seen pins =>
    simp only [advance, hphase] at hstep
    split at hstep
    · rename_i peers hload
      obtain rfl := Option.some.inj hstep
      exact h.leave rfl ⟨⟨seen, rfl⟩, loadPeers_checked hload⟩ (hnothing (by rw [hphase]; rfl))
    · obtain rfl := Option.some.inj hstep
      exact h.leave rfl trivial (hnothing (by rw [hphase]; rfl))
  | scanning st peers pins =>
    rw [hphase] at hsound
    simp only [advance, hphase] at hstep
    obtain rfl := Option.some.inj hstep
    obtain ⟨hunlocked, hsound⟩ := scan_sound pins hsound.1 hsound.2
    exact h.leave hunlocked hsound (hnothing (by rw [hphase]; rfl))
  | binding seen who source =>
    rw [hphase] at hsound
    simp only [Undisturbed, hphase] at hundisturbed
    obtain ⟨rfl, hothers⟩ := hundisturbed
    simp only [advance, hphase] at hstep
    split at hstep
    · obtain rfl := Option.some.inj hstep
      refine h.commit (writes_bound w.state who source) ?_ (fun j _ => hothers j) (by rw [hphase]; rfl)
        (fun hfalse => by cases hfalse) rfl trivial (Or.inr rfl)
      intro who' source' heq
      obtain ⟨rfl, rfl⟩ := Change.bound.inj heq
      exact hsound
    · obtain rfl := Option.some.inj hstep
      exact h.leave rfl trivial (hnothing (by rw [hphase]; rfl))
  | waiting c =>
    rw [hphase] at hsound
    simp only [advance, hphase] at hstep
    split at hstep
    · split at hstep
      · rename_i hfree
        obtain rfl := Option.some.inj hstep
        exact h.acquire hfree rfl hsound (hnothing (by rw [hphase]; rfl))
      · cases hstep
    · obtain rfl := Option.some.inj hstep
      exact h.leave rfl trivial (hnothing (by rw [hphase]; rfl))
  | holding c =>
    have hheld : w.holder = some i := hlock (by rw [hphase]; rfl)
    rw [hphase] at hsound
    simp only [advance, hphase] at hstep
    obtain rfl := Option.some.inj hstep
    obtain ⟨hseen, hsound⟩ := enter_based w hsound
    exact h.under hheld hseen hsound (hnothing (by rw [hphase]; rfl))
  | settling setup seen =>
    have hheld : w.holder = some i := hlock (by rw [hphase]; rfl)
    obtain rfl : w.state = seen := hbase seen (by rw [hphase]; rfl)
    simp only [advance, hphase] at hstep
    obtain rfl := Option.some.inj hstep
    obtain ⟨hseen, hsound⟩ := @settle_based P L w setup
    exact h.under hheld hseen hsound (hnothing (by rw [hphase]; rfl))

theorem kept_step {w t : World} {e : StateEvent} (hundisturbed : Undisturbed w e) (h : Kept P w)
    (hstep : stateStep P L w e = some t) : Kept P t := by
  cases e with
  | step i ok => exact kept_advance h hundisturbed hstep
  | start i c =>
    simp only [stateStep] at hstep
    split at hstep
    · rename_i hidle
      obtain rfl := Option.some.inj hstep
      exact h.leave rfl trivial fun c hc => by rw [hidle] at hc; cases hc
    · cases hstep
  | kill i =>
    have howed : ∀ c, (w.processes i).owed = some c → c ∈ w.reported := by
      intro c hc
      rw [show (w.processes i).owed = none from hundisturbed] at hc
      cases hc
    simp only [stateStep] at hstep
    obtain rfl := Option.some.inj hstep
    split
    · rename_i hheld
      exact h.release hheld rfl trivial howed
    · exact h.leave rfl trivial howed

/-! ## Runs -/

/-- Before any command. -/
structure World.Fresh (w : World) : Prop where
  idle : ∀ i, w.processes i = .idle
  commits : w.commits = []
  reported : w.reported = []

theorem World.Fresh.kept {w : World} (h : w.Fresh) : Kept P w where
  lock i hi := by
    rw [h.idle] at hi
    cases hi
  base i seen hi := by
    rw [h.idle] at hi
    cases hi
  sound i := by
    rw [h.idle]
    exact trivial
  present later change earlier hcommits := by simp [h.commits] at hcommits
  genuine who source hmem := by
    rw [h.commits] at hmem
    cases hmem
  reported c hc := by
    rw [h.reported] at hc
    cases hc
  complete c hc := by
    rw [h.commits] at hc
    cases hc

/-- What a command reported stays in the state until a later command of its kind, that succeeds as well, replaces
it. -/
structure NoLostUpdate (w : World) : Prop where
  present : Present w.state w.commits
  reported : ∀ c ∈ w.reported, c ∈ w.commits
  finished : (∀ i, w.processes i = .idle) → ∀ c ∈ w.commits, c ∈ w.reported

/-- In all runs in which `cmd_raven_bind` disturbs nobody. -/
theorem undisturbed_updates_kept {w t : World} {events : List StateEvent} (hfresh : w.Fresh)
    (hundisturbed : (stateStep P L).Along Undisturbed w events) (hrun : (stateStep P L).run w events = some t) :
    NoLostUpdate t := by
  have hkept : Kept P t := Machine.invariant_along (fun hC hI h => kept_step hC hI h) hundisturbed hfresh.kept hrun
  refine ⟨hkept.present, hkept.reported, ?_⟩
  intro hidle c hc
  rcases hkept.complete c hc with hreported | ⟨i, hi⟩
  · exact hreported
  · rw [hidle] at hi
    cases hi

/-! ## A model that is chosen while a principal is bound -/

def namedWorld : World := ⟨.ofRows [(lit "name", .str (lit "ada"))], [], none, fun _ => .idle, [], []⟩

theorem namedWorld_fresh : namedWorld.Fresh := ⟨fun _ => rfl, rfl, rfl⟩

def echoModel : Selection := ⟨lit "echo", [], []⟩

/-- `cmd_model` from its start to its report. -/
def selectingEvents : List StateEvent := .start 1 (.model echoModel) :: List.replicate 5 (.step 1 true)

def publicDocument : Value := .dict (pinFields (Address.encode whoamiPlatform whoamiKey) (hex whoamiKey))

theorem publicDocument_parsed : parsePublicWhoami whoamiPlatform asciiLetters publicDocument =
    .ok (whoamiOfKey whoamiPlatform whoamiKey) :=
  parse_of_coherent (pinFields_clean whoamiKey) ⟨trivial, trivial, trivial, trivial⟩ (pinFields_coherent rfl)

def bindingEvents : List StateEvent :=
  .start 0 (.ravenBind publicDocument (lit "file")) :: .step 0 true :: (selectingEvents ++ [.step 0 true])

theorem begins_binding {w : World} {document : Value} {source : PyStr} {who : PublicWhoami}
    (hphase : w.processes 0 = .running (.ravenBind document source))
    (hparse : parsePublicWhoami P L document = .ok who) :
    stateStep P L w (.step 0 true) = some (w.goto 0 (.binding w.state who source)) := by
  simp only [stateStep, advance, hphase, begin, hparse]

theorem goto_other (w : World) {i j : Nat} (phase : Phase) (h : j ≠ i) :
    (w.goto i phase).processes j = w.processes j := Function.update_of_ne h _ _

theorem release_other (w : World) {i j : Nat} (phase : Phase) (h : j ≠ i) :
    (w.release i phase).processes j = w.processes j := Function.update_of_ne h _ _

theorem under_other (w : World) {i j : Nat} (phase : Phase) (h : j ≠ i) :
    (w.under i phase).processes j = w.processes j := by
  cases phase <;> exact Function.update_of_ne h _ _

/-- The selection was reported, and after the binding it is gone. -/
theorem bind_reverts_selection : ∃ t, (stateStep whoamiPlatform asciiLetters).run namedWorld bindingEvents = some t ∧
    (∀ i, t.processes i = .idle) ∧ Change.selected echoModel ∈ t.reported ∧ ¬ NoLostUpdate t := by
  refine ⟨_, (Machine.run_cons _).mpr ⟨_, rfl, (Machine.run_cons _).mpr ⟨_, begins_binding rfl publicDocument_parsed, rfl⟩⟩,
    ?_, ?_, ?_⟩
  · intro i
    by_cases h₀ : i = 0
    · subst h₀
      rfl
    · by_cases h₁ : i = 1
      · subst h₁
        rfl
      · simp only [goto_other _ _ h₀, goto_other _ _ h₁, World.write, World.report, release_other _ _ h₁,
          under_other _ _ h₁]
        rfl
  · exact List.mem_cons_of_mem _ List.mem_cons_self
  · intro hkept
    have huntouched : ¬ (Change.bound (whoamiOfKey whoamiPlatform whoamiKey) (lit "file")).Touches
        (.top (lit "llm")) := by
      rintro ⟨key, hkey, hplace⟩
      obtain rfl := Place.top.inj hplace
      exact absurd hkey (by decide)
    rcases hkept.present [_] (.selected echoModel) [] rfl _ List.mem_cons_self with ⟨c, hc, htouches, _⟩ | hclass
    · obtain rfl := List.mem_singleton.mp hc
      exact huntouched htouches
    · have hlost : (Place.top (lit "llm")).classIn (KeyedTable.ofRows (applyBind namedWorld.state.rows
          (whoamiOfKey whoamiPlatform whoamiKey) (lit "file"))).rows = none := by
        rw [classIn_ofRows, ((@writes_bound whoamiPlatform) _ _ _).others _ huntouched]
        rfl
      cases hlost.symm.trans hclass

/-- The binding first, and then the selection. -/
def sequentialEvents : List StateEvent :=
  .start 0 (.ravenBind publicDocument (lit "file")) :: .step 0 true :: .step 0 true :: selectingEvents

theorem along_cons {C : World → StateEvent → Prop} {w t : World} {e : StateEvent} {es : List StateEvent}
    (hstep : stateStep P L w e = some t) (h : C w e) (hrest : (stateStep P L).Along C t es) :
    (stateStep P L).Along C w (e :: es) := by
  refine ⟨h, fun u hu => ?_⟩
  obtain rfl := Option.some.inj (hstep.symm.trans hu)
  exact hrest

theorem both_kept : ∃ t, (stateStep whoamiPlatform asciiLetters).run namedWorld sequentialEvents = some t ∧
    NoLostUpdate t := by
  have hread := @begins_binding whoamiPlatform asciiLetters (namedWorld.goto 0 (.running (.ravenBind publicDocument
    (lit "file")))) _ _ _ rfl publicDocument_parsed
  have hends : ∃ t, (stateStep whoamiPlatform asciiLetters).run namedWorld sequentialEvents = some t :=
    ⟨_, (Machine.run_cons _).mpr ⟨_, rfl, (Machine.run_cons _).mpr ⟨_, hread, rfl⟩⟩⟩
  obtain ⟨t, hrun⟩ := hends
  refine ⟨t, hrun, undisturbed_updates_kept namedWorld_fresh ?_ hrun⟩
  refine along_cons rfl trivial (along_cons hread trivial (along_cons rfl ⟨rfl, ?_⟩ ?_))
  · intro j
    by_cases hj : j = 0
    · subst hj
      rfl
    · simp only [goto_other _ _ hj]
      rfl
  · exact along_cons rfl trivial (along_cons rfl trivial (along_cons rfl trivial (along_cons rfl trivial
      (along_cons rfl trivial (along_cons rfl rfl trivial)))))

end Rdap.Cli
