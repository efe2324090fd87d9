import Mathlib.Logic.Basic

/-!
# Runs of a guarded state machine

A machine answers `none` to an event it cannot take in its present state. A run is
a list of events taken one after another, so every interleaving of the parties of a
system is one list. An invariant is proved for one step and lifted here to runs,
unconditionally or along runs whose steps all meet a condition on the state before.
-/

set_option autoImplicit false

namespace Rdap.Lib

universe u v
variable {σ : Type u} {ε : Type v}

abbrev Machine (σ : Type u) (ε : Type v) := σ → ε → Option σ

namespace Machine
variable (m : Machine σ ε)

/-- The state after the events, if each of them could be taken in turn. -/
def run : σ → List ε → Option σ
  | s, [] => some s
  | s, e :: es => (m s e).bind fun t => run t es

@[simp] theorem run_nil (s : σ) : m.run s [] = some s := rfl

theorem run_cons {s u : σ} {e : ε} {es : List ε} :
    m.run s (e :: es) = some u ↔ ∃ t, m s e = some t ∧ m.run t es = some u := by
  simp [run, Option.bind_eq_some_iff]

theorem run_append {s u : σ} {es fs : List ε} :
    m.run s (es ++ fs) = some u ↔ ∃ t, m.run s es = some t ∧ m.run t fs = some u := by
  induction es generalizing s with
  | nil => simp
  | cons e es ih =>
    simp only [List.cons_append, run_cons, ih]
    constructor
    · rintro ⟨a, ha, t, ht, hu⟩
      exact ⟨t, ⟨a, ha, ht⟩, hu⟩
    · rintro ⟨t, ⟨a, ha, ht⟩, hu⟩
      exact ⟨a, ha, t, ht, hu⟩

/-- Every event of the run is taken in a state that meets the condition with it. -/
def Along (C : σ → ε → Prop) : σ → List ε → Prop
  | _, [] => True
  | s, e :: es => C s e ∧ ∀ t, m s e = some t → Along C t es

instance decidableAlong {C : σ → ε → Prop} [∀ s e, Decidable (C s e)] :
    (s : σ) → (es : List ε) → Decidable (m.Along C s es)
  | _, [] => .isTrue trivial
  | s, e :: es =>
    match h : m s e with
    | none => decidable_of_iff (C s e) (by simp [Along, h])
    | some t =>
      have : Decidable (m.Along C t es) := decidableAlong t es
      decidable_of_iff (C s e ∧ m.Along C t es) (by simp [Along, h])

theorem along_of_forall {C : σ → ε → Prop} (hC : ∀ s e, C s e) (s : σ) (es : List ε) :
    m.Along C s es := by
  induction es generalizing s with
  | nil => trivial
  | cons e es ih => exact ⟨hC s e, fun t _ => ih t⟩

variable {m}

/-- The rule for runs whose steps all meet a condition. -/
theorem invariant_along {C : σ → ε → Prop} {I : σ → Prop}
    (keep : ∀ {s e t}, C s e → I s → m s e = some t → I t)
    {s t : σ} {es : List ε} (hC : m.Along C s es) (hI : I s) (hrun : m.run s es = some t) : I t := by
  induction es generalizing s with
  | nil =>
    obtain rfl : s = t := by simpa using hrun
    exact hI
  | cons e es ih =>
    obtain ⟨a, ha, hrest⟩ := (m.run_cons).mp hrun
    exact ih (hC.2 a ha) (keep hC.1 hI ha) hrest

/-- Two conditions that agree where an invariant holds hold along the same runs, if steps that
meet the second keep the invariant. -/
theorem along_iff {C D : σ → ε → Prop} {I : σ → Prop}
    (keep : ∀ {s e t}, D s e → I s → m s e = some t → I t) (same : ∀ {s e}, I s → (C s e ↔ D s e))
    {s : σ} {es : List ε} (hI : I s) : m.Along C s es ↔ m.Along D s es := by
  induction es generalizing s with
  | nil => exact Iff.rfl
  | cons e es ih =>
    constructor
    · rintro ⟨hC, hrest⟩
      have hD := (same hI).mp hC
      exact ⟨hD, fun t ht => (ih (keep hD hI ht)).mp (hrest t ht)⟩
    · rintro ⟨hD, hrest⟩
      exact ⟨(same hI).mpr hD, fun t ht => (ih (keep hD hI ht)).mpr (hrest t ht)⟩

/-- The rule for all runs. -/
theorem invariant {I : σ → Prop} (keep : ∀ {s e t}, I s → m s e = some t → I t)
    {s t : σ} {es : List ε} (hI : I s) (hrun : m.run s es = some t) : I t :=
  invariant_along (C := fun _ _ => True) (fun _ => keep)
    (m.along_of_forall (fun _ _ => trivial) s es) hI hrun

/-- A preorder that every step respects relates the two ends of a run. -/
theorem run_rel {R : σ → σ → Prop} (refl : ∀ s, R s s)
    (trans : ∀ {a b c}, R a b → R b c → R a c)
    (keep : ∀ {s e t}, m s e = some t → R s t)
    {s t : σ} {es : List ε} (hrun : m.run s es = some t) : R s t :=
  invariant (m := m) (I := R s) (fun hI h => trans hI (keep h)) (refl s) hrun

end Machine

end Rdap.Lib
