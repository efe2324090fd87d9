import Mathlib.Data.Finset.Card
import Mathlib.Logic.Function.Basic
import Rdap.Lib.Machine

/-!
# Parties that share slots

Each party is a machine of its own whose steps may take a slot or give one back; only taking can be
held up, by there being none. The slots that are not free are those of the parties that hold one, and
what a party does is a run of its own machine on its own events.
-/

set_option autoImplicit false

namespace Rdap.Lib

inductive SlotUse where
  | keep | take | give
  deriving DecidableEq

namespace Machine

universe u v
variable {σ : Type u} {ε : Type v} {m : Machine σ ε}

/-- The rule for invariants that speak of the events so far. -/
theorem invariant_history {I : List ε → σ → Prop} {s t : σ} {es : List ε} (start : I [] s)
    (keep : ∀ {es a e b}, I es a → m a e = some b → I (es ++ [e]) b) (hrun : m.run s es = some t) : I es t := by
  induction es using List.reverseRecOn generalizing t with
  | nil =>
    obtain rfl : s = t := by simpa using hrun
    exact start
  | append_singleton es e ih =>
    obtain ⟨a, ha, hlast⟩ := m.run_append.mp hrun
    obtain ⟨b, hb, hend⟩ := m.run_cons.mp hlast
    obtain rfl : b = t := by simpa using hend
    exact keep (ih ha) hb

end Machine

universe u v w

structure SlotPool (ι : Type u) (σ : Type v) where
  free : Nat
  party : ι → σ

namespace SlotPool
variable {ι : Type u} {σ : Type v} {ε : Type w} [DecidableEq ι]

/-- One step of a party, if there is the slot it takes. -/
def machine (step : ι → σ → ε → Option (σ × SlotUse)) : Machine (SlotPool ι σ) (ι × ε) := fun s e =>
  match step e.1 (s.party e.1) e.2 with
  | none => none
  | some (next, use) =>
    let party := Function.update s.party e.1 next
    match use with
    | .keep => some ⟨s.free, party⟩
    | .take => if s.free = 0 then none else some ⟨s.free - 1, party⟩
    | .give => some ⟨s.free + 1, party⟩

/-- The events of one party. -/
def own (i : ι) (es : List (ι × ε)) : List ε := (es.filter fun e => e.1 = i).map Prod.snd

variable {step : ι → σ → ε → Option (σ × SlotUse)}

theorem machine_some {s t : SlotPool ι σ} {e : ι × ε} (h : machine step s e = some t) :
    ∃ next use, step e.1 (s.party e.1) e.2 = some (next, use) ∧ t.party = Function.update s.party e.1 next ∧
      match use with
      | .keep => t.free = s.free
      | .take => s.free = t.free + 1
      | .give => t.free = s.free + 1 := by
  unfold machine at h
  split at h
  · cases h
  · rename_i next use hstep
    refine ⟨next, use, hstep, ?_⟩
    cases use with
    | keep =>
      obtain rfl := Option.some.inj h
      exact ⟨rfl, rfl⟩
    | take =>
      dsimp only at h
      split at h
      · cases h
      · obtain rfl := Option.some.inj h
        refine ⟨rfl, ?_⟩
        dsimp only
        omega
    | give =>
      obtain rfl := Option.some.inj h
      exact ⟨rfl, rfl⟩

/-- What a party did is a run of its machine. -/
theorem run_own {s t : SlotPool ι σ} {es : List (ι × ε)} (hrun : (machine step).run s es = some t) (i : ι) :
    Machine.run (fun a e => (step i a e).map Prod.fst) (s.party i) (own i es) = some (t.party i) := by
  induction es generalizing s with
  | nil =>
    obtain rfl : s = t := by simpa using hrun
    rfl
  | cons e es ih =>
    obtain ⟨a, ha, hrest⟩ := (Machine.run_cons _).mp hrun
    obtain ⟨next, use, hstep, hparty, -⟩ := machine_some ha
    have htail := ih hrest
    rw [hparty] at htail
    by_cases hi : e.1 = i
    · subst hi
      rw [Function.update_self] at htail
      simp only [own, List.filter_cons, decide_true, if_true, List.map_cons]
      exact (Machine.run_cons _).mpr ⟨next, by simp only [hstep, Option.map_some], htail⟩
    · rw [Function.update_of_ne (Ne.symm hi)] at htail
      simp only [own, List.filter_cons, hi, decide_false]
      exact htail

/-- The slots in use are counted by the parties that hold one. -/
def Balanced (holds : σ → Prop) (slots : Nat) (s : SlotPool ι σ) : Prop :=
  ∃ ids : Finset ι, (∀ i, i ∈ ids ↔ holds (s.party i)) ∧ s.free + ids.card = slots

/-- A party takes a slot when it holds none, and gives one when it holds one. -/
def Honest (holds : σ → Prop) (step : ι → σ → ε → Option (σ × SlotUse)) : Prop :=
  ∀ i a e b use, step i a e = some (b, use) →
    match use with
    | .keep => holds a ↔ holds b
    | .take => ¬holds a ∧ holds b
    | .give => holds a ∧ ¬holds b

theorem run_balanced {holds : σ → Prop} (honest : Honest holds step) {slots : Nat} {s t : SlotPool ι σ}
    {es : List (ι × ε)} (hs : Balanced holds slots s) (hrun : (machine step).run s es = some t) :
    Balanced holds slots t := by
  refine Machine.invariant ?_ hs hrun
  rintro a ⟨i, e⟩ b ⟨ids, hids, hcount⟩ hstep
  obtain ⟨next, use, hown, hparty, hfree⟩ := machine_some hstep
  have hself : b.party i = next := by rw [hparty, Function.update_self]
  have hother : ∀ j, j ≠ i → b.party j = a.party j := by
    intro j hj
    rw [hparty, Function.update_of_ne hj]
  have huse := honest i _ _ _ _ hown
  cases use with
  | keep =>
    dsimp only at huse hfree
    refine ⟨ids, ?_, by omega⟩
    intro j
    by_cases hj : j = i
    · rw [hj, hself, hids, huse]
    · rw [hother j hj, hids]
  | take =>
    dsimp only at huse hfree
    have hnot : i ∉ ids := fun hi => huse.1 ((hids i).mp hi)
    refine ⟨insert i ids, ?_, by rw [Finset.card_insert_of_notMem hnot]; omega⟩
    intro j
    by_cases hj : j = i
    · rw [hj, hself]
      simp [huse.2]
    · rw [hother j hj, Finset.mem_insert, hids]
      simp [hj]
  | give =>
    dsimp only at huse hfree
    have hin : i ∈ ids := (hids i).mpr huse.1
    have hcard := Finset.card_erase_add_one hin
    refine ⟨ids.erase i, ?_, by omega⟩
    intro j
    by_cases hj : j = i
    · rw [hj, hself]
      simp [huse.2]
    · rw [hother j hj, Finset.mem_erase, hids]
      simp [hj]

omit [DecidableEq ι] in
theorem Balanced.card_le {holds : σ → Prop} {slots : Nat} {s : SlotPool ι σ} (h : Balanced holds slots s)
    {ids : Finset ι} (hids : ∀ i ∈ ids, holds (s.party i)) : ids.card ≤ slots := by
  obtain ⟨all, hall, hcount⟩ := h
  have hsub : ids ⊆ all := fun i hi => (hall i).mpr (hids i hi)
  have hle := Finset.card_le_card hsub
  omega

end SlotPool

end Rdap.Lib
