import Rdap.Protocol.RatchetSession
import Rdap.Protocol.Scka

/-!
# Both sides derive the same epoch keys

The promotions alone determine the root after each of them and where the chain of each epoch and
direction starts. A side that has applied some of them holds that root, and its chains are those
starts, moved on as far as its own counters say; the other side may be at another promotion and at
other counters.
-/

set_option autoImplicit false

namespace Rdap.Protocol
open Python Lib

structure Promotion where
  initiator : Side
  ss : Bytes

/-- A message key with what names it: who sends under it, the epoch of that direction and the counter. -/
structure Derived where
  sender : Side
  epoch : Nat
  counter : Nat
  key : Bytes

/-- A side, how many promotions it applied, and the keys it derived, the last first. -/
structure SckaParty where
  state : SckaEpochState
  promoted : Nat := 0
  derived : List Derived := []

abbrev SckaSystem := Side → SckaParty

inductive SckaAct where
  | promote (side : Side)
  | send (side : Side)
  | receive (side : Side)

/-! ## The system -/

section
variable (P : Platform)

def startSckaParty (skScka : Bytes) (side : Side) : Except PyExc SckaParty := do
  let state ← sckaFromInit P (side = .alice) skScka
  return { state }

def sckaStart (skScka : Bytes) : Except PyExc SckaSystem := do
  let alice ← startSckaParty P skScka .alice
  let bob ← startSckaParty P skScka .bob
  return fun side => if side = .alice then alice else bob

/-- One promotion of the common list, by the function for the side's part in it. -/
def promoteAs (side : Side) (p : Promotion) (state : SckaEpochState) : Except PyExc SckaEpochState :=
  if side = p.initiator then sckaEpochPromoteInitiator P state p.ss
  else sckaEpochPromoteResponder P state p.ss

def applyPromotion (side : Side) (p : Promotion) (party : SckaParty) : Except PyExc SckaParty := do
  let state ← promoteAs P side p party.state
  return { party with state, promoted := party.promoted + 1 }

def deriveSend (side : Side) (party : SckaParty) : Except PyExc SckaParty := do
  let (state, mk) ← sckaNextSendMk P party.state
  let named : Derived := ⟨side, party.state.sendingEpoch, party.state.sendCtr, mk⟩
  return { party with state, derived := named :: party.derived }

def deriveRecv (side : Side) (party : SckaParty) : Except PyExc SckaParty := do
  let (state, mk) ← sckaNextRecvMk P party.state
  let named : Derived := ⟨side.other, party.state.receivingEpoch, party.state.recvCtr, mk⟩
  return { party with state, derived := named :: party.derived }

/-- What a side makes of itself; a promotion is the next one of the list. -/
def act (schedule : List Promotion) (sys : SckaSystem) : SckaAct → Option (Side × SckaParty)
  | .promote side => do
    let p ← schedule[(sys side).promoted]?
    let party ← (applyPromotion P side p (sys side)).toOption
    return (side, party)
  | .send side => (deriveSend P side (sys side)).toOption.map fun party => (side, party)
  | .receive side => (deriveRecv P side (sys side)).toOption.map fun party => (side, party)

def sckaMachine (schedule : List Promotion) : Machine SckaSystem SckaAct := fun sys a =>
  (act P schedule sys a).map fun r => Function.update sys r.1 r.2

end

/-! ## What the promotions alone determine -/

section
variable (P : Platform)

/-- The root, and for each direction how many epochs it has seen and where its chain starts. -/
structure Track where
  root : Bytes
  epoch : Side → Nat
  base : Side → Bytes

def Track.start (skScka : Bytes) : Track where
  root := (sckaInitOkm P skScka).take 32
  epoch _ := 0
  base side := if side = .alice then ((sckaInitOkm P skScka).drop 32).take 32
    else ((sckaInitOkm P skScka).drop 64).take 32

def Track.promote (t : Track) (p : Promotion) : Track where
  root := (sckaRkStep P t.root p.ss).1
  epoch := Function.update t.epoch p.initiator (t.epoch p.initiator + 1)
  base := Function.update t.base p.initiator (sckaRkStep P t.root p.ss).2

/-- After the first `n` promotions. -/
def track (skScka : Bytes) (schedule : List Promotion) (n : Nat) : Track :=
  (schedule.take n).foldl (Track.promote P) (Track.start P skScka)

/-- A chain key, moved on. -/
def chainKey (base : Bytes) (n : Nat) : Bytes := (nextChainKey P)^[n] base

variable {P}

theorem track_succ {skScka : Bytes} {schedule : List Promotion} {n : Nat} {p : Promotion}
    (h : schedule[n]? = some p) :
    track P skScka schedule (n + 1) = (track P skScka schedule n).promote P p := by
  unfold track
  rw [List.take_add_one, h, Option.toList_some, List.foldl_append, List.foldl_cons, List.foldl_nil]

theorem track_later {skScka : Bytes} {schedule : List Promotion} {side : Side} (n k : Nat) :
    (track P skScka schedule n).epoch side ≤ (track P skScka schedule (n + k)).epoch side ∧
      ((track P skScka schedule (n + k)).epoch side = (track P skScka schedule n).epoch side →
        (track P skScka schedule (n + k)).base side = (track P skScka schedule n).base side) := by
  induction k with
  | zero => exact ⟨Nat.le_refl _, fun _ => rfl⟩
  | succ k ih =>
    cases hp : schedule[n + k]? with
    | none =>
      have hsame : track P skScka schedule (n + (k + 1)) = track P skScka schedule (n + k) := by
        have hend := List.getElem?_eq_none_iff.mp hp
        unfold track
        rw [List.take_of_length_le hend, List.take_of_length_le (by omega)]
      rw [hsame]
      exact ih
    | some p =>
      have hstep : track P skScka schedule (n + (k + 1)) = (track P skScka schedule (n + k)).promote P p :=
        track_succ hp
      obtain ⟨hle, hbase⟩ := ih
      rw [hstep]
      unfold Track.promote
      by_cases hside : side = p.initiator
      · subst hside
        simp only [Function.update_self]
        refine ⟨by omega, ?_⟩
        intro h
        omega
      · simp only [Function.update_of_ne hside]
        exact ⟨hle, hbase⟩

/-- As long as the epoch of a direction is the same, so is the start of its chain. -/
theorem base_eq_of_epoch_eq {skScka : Bytes} {schedule : List Promotion} {side : Side} {n m : Nat}
    (h : (track P skScka schedule n).epoch side = (track P skScka schedule m).epoch side) :
    (track P skScka schedule n).base side = (track P skScka schedule m).base side := by
  rcases Nat.le_total n m with hle | hle
  · obtain ⟨k, rfl⟩ := Nat.exists_eq_add_of_le hle
    exact ((track_later n k).2 h.symm).symm
  · obtain ⟨k, rfl⟩ := Nat.exists_eq_add_of_le hle
    exact (track_later m k).2 h

/-! ## What a side holds -/

/-- The side is where the promotions it applied put it, its chains moved on to its counters, and every
key it derived belongs to the chain of its name. -/
structure Follows (P : Platform) (skScka : Bytes) (schedule : List Promotion) (side : Side)
    (party : SckaParty) : Prop where
  root : party.state.rk = (track P skScka schedule party.promoted).root
  sendingEpoch : party.state.sendingEpoch = (track P skScka schedule party.promoted).epoch side
  receivingEpoch : party.state.receivingEpoch = (track P skScka schedule party.promoted).epoch side.other
  ckSend : party.state.ckSend =
    chainKey P ((track P skScka schedule party.promoted).base side) party.state.sendCtr
  ckRecv : party.state.ckRecv =
    chainKey P ((track P skScka schedule party.promoted).base side.other) party.state.recvCtr
  derived : ∀ d ∈ party.derived, ∃ n, d.epoch = (track P skScka schedule n).epoch d.sender ∧
    d.key = messageKey P (chainKey P ((track P skScka schedule n).base d.sender) d.counter)

theorem applyPromotion_follows {skScka : Bytes} {schedule : List Promotion} {side : Side} {p : Promotion}
    {party next : SckaParty} (h : Follows P skScka schedule side party) (hp : schedule[party.promoted]? = some p)
    (hnext : applyPromotion P side p party = .ok next) : Follows P skScka schedule side next := by
  have htrack := @track_succ P skScka schedule _ p hp
  unfold applyPromotion at hnext
  simp only [bind_ok, pure_ok] at hnext
  obtain ⟨state, hstate, rfl⟩ := hnext
  unfold promoteAs at hstate
  split at hstate
  · rename_i hside
    subst hside
    obtain ⟨-, -, rfl⟩ := promoteInitiator_ok.mp hstate
    have hpeer := p.initiator.other_ne
    constructor
    · simp only [htrack, Track.promote, h.root]
    · simp [htrack, Track.promote, h.sendingEpoch]
    · simp [htrack, Track.promote, h.receivingEpoch, hpeer]
    · simp [htrack, Track.promote, h.root, chainKey]
    · simp [htrack, Track.promote, h.ckRecv, hpeer]
    · exact h.derived
  · rename_i hside
    obtain ⟨-, -, rfl⟩ := promoteResponder_ok.mp hstate
    have hpeer : side.other = p.initiator := by
      cases side <;> cases hp' : p.initiator <;> simp_all [Side.other]
    constructor
    · simp only [htrack, Track.promote, h.root]
    · simp [htrack, Track.promote, h.sendingEpoch, hside]
    · simp [htrack, Track.promote, h.receivingEpoch, hpeer]
    · simp [htrack, Track.promote, h.ckSend, hside]
    · simp [htrack, Track.promote, h.root, chainKey, hpeer]
    · exact h.derived

theorem chainKey_succ (base : Bytes) (n : Nat) :
    chainKey P base (n + 1) = nextChainKey P (chainKey P base n) := Function.iterate_succ_apply' _ _ _

theorem deriveSend_follows {skScka : Bytes} {schedule : List Promotion} {side : Side} {party next : SckaParty}
    (h : Follows P skScka schedule side party) (hnext : deriveSend P side party = .ok next) :
    Follows P skScka schedule side next := by
  unfold deriveSend at hnext
  simp only [bind_ok, pure_ok] at hnext
  obtain ⟨⟨state, mk⟩, hstate, rfl⟩ := hnext
  obtain ⟨-, rfl, rfl⟩ := nextSendMk_ok.mp hstate
  refine ⟨h.root, h.sendingEpoch, h.receivingEpoch, ?_, h.ckRecv, ?_⟩
  · simp only
    rw [chainKey_succ, ← h.ckSend]
  · intro d hd
    rcases List.mem_cons.mp hd with rfl | hd
    · refine ⟨party.promoted, h.sendingEpoch, ?_⟩
      simp only
      rw [← h.ckSend]
    · exact h.derived d hd

theorem deriveRecv_follows {skScka : Bytes} {schedule : List Promotion} {side : Side} {party next : SckaParty}
    (h : Follows P skScka schedule side party) (hnext : deriveRecv P side party = .ok next) :
    Follows P skScka schedule side next := by
  unfold deriveRecv at hnext
  simp only [bind_ok, pure_ok] at hnext
  obtain ⟨⟨state, mk⟩, hstate, rfl⟩ := hnext
  obtain ⟨-, rfl, rfl⟩ := nextRecvMk_ok.mp hstate
  refine ⟨h.root, h.sendingEpoch, h.receivingEpoch, h.ckSend, ?_, ?_⟩
  · simp only
    rw [chainKey_succ, ← h.ckRecv]
  · intro d hd
    rcases List.mem_cons.mp hd with rfl | hd
    · refine ⟨party.promoted, h.receivingEpoch, ?_⟩
      simp only
      rw [← h.ckRecv]
    · exact h.derived d hd

theorem sckaStart_ok {skScka : Bytes} {sys : SckaSystem} :
    sckaStart P skScka = .ok sys ↔ skScka.length = 32 ∧ ∀ side, sys side =
      { state :=
          { rk := (sckaInitOkm P skScka).take 32
            ckSend := ((sckaInitOkm P skScka).drop (if side = .alice then 32 else 64)).take 32
            ckRecv := ((sckaInitOkm P skScka).drop (if side = .alice then 64 else 32)).take 32 } } := by
  unfold sckaStart startSckaParty
  simp only [bind_ok, pure_ok, sckaFromInit_ok]
  constructor
  · rintro ⟨alice, ⟨a, ⟨hlength, rfl⟩, rfl⟩, bob, ⟨b, ⟨-, rfl⟩, rfl⟩, rfl⟩
    refine ⟨hlength, ?_⟩
    intro side
    cases side <;> rfl
  · rintro ⟨hlength, hsys⟩
    refine ⟨_, ⟨_, ⟨hlength, rfl⟩, rfl⟩, _, ⟨_, ⟨hlength, rfl⟩, rfl⟩, ?_⟩
    funext side
    rw [hsys]
    cases side <;> rfl

theorem start_follows {skScka : Bytes} {schedule : List Promotion} {sys : SckaSystem}
    (h : sckaStart P skScka = .ok sys) (side : Side) : Follows P skScka schedule side (sys side) := by
  rw [(sckaStart_ok.mp h).2 side]
  constructor
  · rfl
  · rfl
  · rfl
  · cases side <;> rfl
  · cases side <;> rfl
  · intro d hd
    cases hd

/-! ## Runs -/

theorem act_some {schedule : List Promotion} {sys : SckaSystem} {a : SckaAct} {side : Side} {next : SckaParty}
    (h : act P schedule sys a = some (side, next)) :
    (∃ p, a = .promote side ∧ schedule[(sys side).promoted]? = some p ∧
      applyPromotion P side p (sys side) = .ok next) ∨
    (a = .send side ∧ deriveSend P side (sys side) = .ok next) ∨
    (a = .receive side ∧ deriveRecv P side (sys side) = .ok next) := by
  cases a with
  | promote s =>
    obtain ⟨p, hp, hrest⟩ := Option.bind_eq_some_iff.mp h
    obtain ⟨party, hparty, heq⟩ := Option.bind_eq_some_iff.mp hrest
    obtain ⟨rfl, rfl⟩ := Prod.mk.inj (Option.some.inj heq)
    exact Or.inl ⟨p, rfl, hp, toOption_some.mp hparty⟩
  | send s =>
    obtain ⟨party, hparty, heq⟩ := Option.map_eq_some_iff.mp h
    obtain ⟨rfl, rfl⟩ := Prod.mk.inj heq
    exact Or.inr (Or.inl ⟨rfl, toOption_some.mp hparty⟩)
  | receive s =>
    obtain ⟨party, hparty, heq⟩ := Option.map_eq_some_iff.mp h
    obtain ⟨rfl, rfl⟩ := Prod.mk.inj heq
    exact Or.inr (Or.inr ⟨rfl, toOption_some.mp hparty⟩)

theorem sckaMachine_follows {skScka : Bytes} {schedule : List Promotion} {sys next : SckaSystem} {a : SckaAct}
    (h : ∀ side, Follows P skScka schedule side (sys side)) (hnext : sckaMachine P schedule sys a = some next) :
    ∀ side, Follows P skScka schedule side (next side) := by
  obtain ⟨⟨mover, party⟩, hact, rfl⟩ := Option.map_eq_some_iff.mp hnext
  have hparty : Follows P skScka schedule mover party := by
    rcases act_some hact with ⟨p, -, hp, hok⟩ | ⟨-, hok⟩ | ⟨-, hok⟩
    · exact applyPromotion_follows (h mover) hp hok
    · exact deriveSend_follows (h mover) hok
    · exact deriveRecv_follows (h mover) hok
  intro side
  by_cases hside : side = mover
  · subst hside
    simpa using hparty
  · simpa [hside] using h side

theorem run_follows {skScka : Bytes} {schedule : List Promotion} {start sys : SckaSystem} {acts : List SckaAct}
    (hstart : sckaStart P skScka = .ok start) (hrun : (sckaMachine P schedule).run start acts = some sys)
    (side : Side) : Follows P skScka schedule side (sys side) := by
  have hall : ∀ side, Follows P skScka schedule side (sys side) :=
    Machine.invariant (I := fun s : SckaSystem => ∀ side, Follows P skScka schedule side (s side))
      sckaMachine_follows (start_follows hstart) hrun
  exact hall side

/-! ## Nothing holds a side up -/

theorem track_lengths (skScka : Bytes) (schedule : List Promotion) (n : Nat) :
    (track P skScka schedule n).root.length = 32 ∧
      ∀ side, ((track P skScka schedule n).base side).length = 32 := by
  have hfold : ∀ (ps : List Promotion) (t : Track),
      (t.root.length = 32 ∧ ∀ side, (t.base side).length = 32) →
      ((ps.foldl (Track.promote P) t).root.length = 32 ∧
        ∀ side, ((ps.foldl (Track.promote P) t).base side).length = 32) := by
    intro ps
    induction ps with
    | nil => exact fun t h => h
    | cons p ps ih =>
      intro t h
      apply ih
      refine ⟨(sckaRkStep_lengths t.root p.ss).1, ?_⟩
      intro side
      unfold Track.promote
      by_cases hside : side = p.initiator
      · subst hside
        simpa using (sckaRkStep_lengths t.root p.ss).2
      · simpa [hside] using h.2 side
  apply hfold
  have hlength : (sckaInitOkm P skScka).length = 96 := hkdfSha256_length P skScka zeroKey sckaInitInfo 96
  constructor
  · simp [Track.start, hlength]
  · intro side
    cases side <;> simp [Track.start, hlength]

theorem chainKey_length {base : Bytes} (h : base.length = 32) (n : Nat) : (chainKey P base n).length = 32 := by
  cases n with
  | zero => exact h
  | succ n =>
    rw [chainKey_succ]
    exact hmacSha256_length P _ _

theorem Follows.send {skScka : Bytes} {schedule : List Promotion} {sys : SckaSystem} {side : Side}
    (h : Follows P skScka schedule side (sys side)) :
    ∃ next, sckaMachine P schedule sys (.send side) = some next := by
  have hck : (sys side).state.ckSend.length = 32 := by
    rw [h.ckSend]
    exact chainKey_length ((track_lengths skScka schedule _).2 side) _
  have hstate : sckaNextSendMk P (sys side).state = .ok _ := nextSendMk_ok.mpr ⟨hck, rfl, rfl⟩
  obtain ⟨party, hparty⟩ : ∃ party, deriveSend P side (sys side) = .ok party := by
    unfold deriveSend
    rw [hstate]
    exact ⟨_, rfl⟩
  unfold sckaMachine act
  simp only [hparty]
  exact ⟨_, rfl⟩

theorem Follows.receive {skScka : Bytes} {schedule : List Promotion} {sys : SckaSystem} {side : Side}
    (h : Follows P skScka schedule side (sys side)) :
    ∃ next, sckaMachine P schedule sys (.receive side) = some next := by
  have hck : (sys side).state.ckRecv.length = 32 := by
    rw [h.ckRecv]
    exact chainKey_length ((track_lengths skScka schedule _).2 side.other) _
  have hstate : sckaNextRecvMk P (sys side).state = .ok _ := nextRecvMk_ok.mpr ⟨hck, rfl, rfl⟩
  obtain ⟨party, hparty⟩ : ∃ party, deriveRecv P side (sys side) = .ok party := by
    unfold deriveRecv
    rw [hstate]
    exact ⟨_, rfl⟩
  unfold sckaMachine act
  simp only [hparty]
  exact ⟨_, rfl⟩

theorem Follows.promote {skScka : Bytes} {schedule : List Promotion} {sys : SckaSystem} {side : Side}
    (h : Follows P skScka schedule side (sys side)) {p : Promotion}
    (hp : schedule[(sys side).promoted]? = some p) (hss : Contributory p.ss) :
    ∃ next, sckaMachine P schedule sys (.promote side) = some next := by
  have hrk : (sys side).state.rk.length = 32 := by
    rw [h.root]
    exact (track_lengths skScka schedule _).1
  have hstate : ∃ state, promoteAs P side p (sys side).state = .ok state := by
    unfold promoteAs
    split
    · exact ⟨_, promoteInitiator_ok.mpr ⟨hrk, hss, rfl⟩⟩
    · exact ⟨_, promoteResponder_ok.mpr ⟨hrk, hss, rfl⟩⟩
  obtain ⟨state, hstate⟩ := hstate
  have hparty : applyPromotion P side p (sys side) =
      .ok { sys side with state, promoted := (sys side).promoted + 1 } := by
    unfold applyPromotion
    rw [hstate]
    rfl
  unfold sckaMachine act
  simp only [hp, Option.bind_eq_bind, Option.bind_some, hparty]
  exact ⟨_, rfl⟩

/-! ## Agreement -/

/-- Keys of one name are one key, whoever derived them. -/
theorem Follows.agree {skScka : Bytes} {schedule : List Promotion} {a b : Side} {x y : SckaParty}
    (hx : Follows P skScka schedule a x) (hy : Follows P skScka schedule b y) {d e : Derived} (hd : d ∈ x.derived)
    (he : e ∈ y.derived) (hsender : d.sender = e.sender) (hepoch : d.epoch = e.epoch)
    (hcounter : d.counter = e.counter) : d.key = e.key := by
  obtain ⟨n, hn, hdkey⟩ := hx.derived d hd
  obtain ⟨m, hm, hekey⟩ := hy.derived e he
  rw [hdkey, hekey, hsender, hcounter]
  rw [hsender] at hn
  rw [base_eq_of_epoch_eq (hn.symm.trans (hepoch.trans hm))]

end

/-- Whatever the promotions and however the sides interleave, they agree on the keys of every name and
on the roots; no derivation is held up, nor a promotion of a contributory secret; and a promotion
leaves the chain and the counters of the other direction alone. -/
theorem scka_agreement (P : Platform) {skScka : Bytes} (hsk : skScka.length = 32) (schedule : List Promotion) :
    (∃ start, sckaStart P skScka = .ok start ∧ ∃ root : Nat → Bytes,
      ∀ acts sys, (sckaMachine P schedule).run start acts = some sys →
        (∀ a b, ∀ d ∈ (sys a).derived, ∀ e ∈ (sys b).derived,
          d.sender = e.sender → d.epoch = e.epoch → d.counter = e.counter → d.key = e.key) ∧
        ∀ side, (sys side).state.rk = root (sys side).promoted ∧
          (∃ next, sckaMachine P schedule sys (.send side) = some next) ∧
          (∃ next, sckaMachine P schedule sys (.receive side) = some next) ∧
          ∀ p, schedule[(sys side).promoted]? = some p → Contributory p.ss →
            ∃ next, sckaMachine P schedule sys (.promote side) = some next) ∧
    ∀ state next ss,
      (sckaEpochPromoteInitiator P state ss = .ok next → next.ckRecv = state.ckRecv ∧
        next.receivingEpoch = state.receivingEpoch ∧ next.recvCtr = state.recvCtr) ∧
      (sckaEpochPromoteResponder P state ss = .ok next → next.ckSend = state.ckSend ∧
        next.sendingEpoch = state.sendingEpoch ∧ next.sendCtr = state.sendCtr) := by
  constructor
  · obtain ⟨start, hstart⟩ : ∃ start, sckaStart P skScka = .ok start :=
      ⟨_, sckaStart_ok.mpr ⟨hsk, fun _ => rfl⟩⟩
    refine ⟨start, hstart, fun n => (track P skScka schedule n).root, ?_⟩
    intro acts sys hrun
    have hfollows := run_follows hstart hrun
    constructor
    · intro a b d hd e he hsender hepoch hcounter
      exact (hfollows a).agree (hfollows b) hd he hsender hepoch hcounter
    · intro side
      exact ⟨(hfollows side).root, (hfollows side).send, (hfollows side).receive,
        fun p hp hss => (hfollows side).promote hp hss⟩
  · intro state next ss
    constructor
    · intro h
      obtain ⟨-, -, rfl⟩ := promoteInitiator_ok.mp h
      exact ⟨rfl, rfl, rfl⟩
    · intro h
      obtain ⟨-, -, rfl⟩ := promoteResponder_ok.mp h
      exact ⟨rfl, rfl, rfl⟩

def oneEpoch : List Promotion := [⟨.alice, List.replicate 32 1⟩]

/-- Bob follows the promotion before Alice makes it, and each side derives a key of the new epoch. -/
def bobFirst : List SckaAct := [.promote .bob, .promote .alice, .send .alice, .receive .bob]

/-- Both sides have a key for Alice's first message of the new epoch. -/
def BothDerived (sys : SckaSystem) : Prop :=
  ∃ d ∈ (sys .alice).derived, ∃ e ∈ (sys .bob).derived,
    (d.sender = .alice ∧ d.epoch = 1 ∧ d.counter = 0) ∧ e.sender = .alice ∧ e.epoch = 1 ∧ e.counter = 0

instance (sys : SckaSystem) : Decidable (BothDerived sys) :=
  inferInstanceAs (Decidable (∃ _ ∈ _, ∃ _ ∈ _, _ ∧ _))

/-- The keys of that name are equal. -/
theorem bob_promotes_first : ∃ start sys, sckaStart (.ofTable []) (List.replicate 32 7) = .ok start ∧
    (sckaMachine (.ofTable []) oneEpoch).run start bobFirst = some sys ∧
    ∃ d ∈ (sys .alice).derived, ∃ e ∈ (sys .bob).derived,
      d.sender = e.sender ∧ d.epoch = e.epoch ∧ d.counter = e.counter ∧ d.key = e.key := by
  obtain ⟨⟨start, hstart, root, hagree⟩, -⟩ := scka_agreement (.ofTable [])
    (List.length_replicate : (List.replicate 32 (7 : UInt8)).length = 32) oneEpoch
  have hevaluated : ((sckaStart (.ofTable []) (List.replicate 32 7)).toOption.bind fun start =>
      (sckaMachine (.ofTable []) oneEpoch).run start bobFirst).any
        (fun sys => decide (BothDerived sys)) = true := by
    decide +kernel
  obtain ⟨sys, hrun, d, hd, e, he, ⟨hds, hde, hdc⟩, hes, hee, hec⟩ := exists_of_any hevaluated
  rw [hstart] at hrun
  have hsame := (hagree bobFirst sys hrun).1 .alice .bob d hd e he (hds.trans hes.symm)
    (hde.trans hee.symm) (hdc.trans hec.symm)
  exact ⟨start, sys, hstart, hrun, d, hd, e, he, hds.trans hes.symm, hde.trans hee.symm,
    hdc.trans hec.symm, hsame⟩

end Rdap.Protocol
