import Mathlib.Logic.Basic

/-!
# Loops that an exception ends

A loop over a list whose body changes a state and may raise. The first exception ends it, and
what was done before stays done. Whether the loop runs through is a matter of its turns, each
at the state in which it finds things.
-/

set_option autoImplicit false

namespace Rdap.Lib

variable {α σ ε : Type}

/-- One block after the other, unless the first raises. -/
def andThen (first second : σ → Except ε Unit × σ) (s : σ) : Except ε Unit × σ :=
  match first s with
  | (.ok _, s') => second s'
  | (.error e, s') => (.error e, s')

def forEach (body : α → σ → Except ε Unit × σ) : List α → σ → Except ε Unit × σ
  | [], s => (.ok (), s)
  | x :: xs, s =>
    match body x s with
    | (.ok _, s') => forEach body xs s'
    | (.error e, s') => (.error e, s')

section
variable {first second : σ → Except ε Unit × σ} {s : σ}

theorem andThen_of_ok (h : (first s).1 = .ok ()) : andThen first second s = second (first s).2 := by
  unfold andThen
  split
  · rename_i s' heq
    rw [heq]
  · rename_i e s' heq
    rw [heq] at h
    cases h

theorem andThen_of_error {e : ε} (h : (first s).1 = .error e) :
    andThen first second s = (.error e, (first s).2) := by
  unfold andThen
  split
  · rename_i s' heq
    rw [heq] at h
    cases h
  · rename_i e' s' heq
    rw [heq] at h ⊢
    rw [Except.error.inj h]

theorem andThen_ok_iff : (andThen first second s).1 = .ok () ↔
    (first s).1 = .ok () ∧ (second (first s).2).1 = .ok () := by
  cases hfirst : (first s).1 with
  | ok u => rw [andThen_of_ok hfirst]; simp
  | error e => rw [andThen_of_error hfirst]; simp

theorem andThen_preserves (Inv : σ → Prop) (hfirst : Inv (first s).2)
    (hsecond : ∀ s, Inv s → Inv (second s).2) : Inv (andThen first second s).2 := by
  cases hresult : (first s).1 with
  | ok u =>
    rw [andThen_of_ok hresult]
    exact hsecond _ hfirst
  | error e =>
    rw [andThen_of_error hresult]
    exact hfirst

end

section
variable {body : α → σ → Except ε Unit × σ} {s : σ}

theorem forEach_append (before after : List α) (h : (forEach body before s).1 = .ok ()) :
    forEach body (before ++ after) s = forEach body after (forEach body before s).2 := by
  induction before generalizing s with
  | nil => rfl
  | cons x xs ih =>
    simp only [List.cons_append, forEach] at h ⊢
    split
    · rename_i s' hbody
      rw [hbody] at h
      exact ih h
    · rename_i e s' hbody
      rw [hbody] at h
      cases h

/-- The loop runs through if no turn raises. -/
theorem forEach_ok_iff (xs : List α) : (forEach body xs s).1 = .ok () ↔
    ∀ before x after, xs = before ++ x :: after →
      (body x (forEach body before s).2).1 = .ok () := by
  induction xs generalizing s with
  | nil =>
    refine ⟨fun _ before x after h => ?_, fun _ => rfl⟩
    cases before <;> cases h
  | cons y ys ih =>
    constructor
    · intro h before x after hsplit
      cases hbody : body y s with
      | mk result s' =>
        cases result with
        | error e =>
          simp only [forEach, hbody] at h
          cases h
        | ok u =>
          cases before with
          | nil =>
            obtain ⟨rfl, _⟩ := List.cons.inj hsplit
            exact congrArg Prod.fst hbody
          | cons z zs =>
            obtain ⟨rfl, hrest⟩ := List.cons.inj hsplit
            simp only [forEach, hbody] at h ⊢
            exact ih.mp h zs x after hrest
    · intro h
      have hfirst := h [] y ys rfl
      cases hbody : body y s with
      | mk result s' =>
        have hresult : result = .ok () := (congrArg Prod.fst hbody).symm.trans hfirst
        subst hresult
        simp only [forEach, hbody]
        apply ih.mpr
        intro before x after hsplit
        have hturn := h (y :: before) x after (by rw [hsplit]; rfl)
        simpa only [forEach, hbody] using hturn

/-- What every turn preserves the loop preserves, however it ends. -/
theorem forEach_preserves_of_mem (Inv : σ → Prop) {xs : List α}
    (hbody : ∀ x ∈ xs, ∀ s, Inv s → Inv (body x s).2) (h : Inv s) : Inv (forEach body xs s).2 := by
  induction xs generalizing s with
  | nil => exact h
  | cons x xs ih =>
    have hnext := hbody x List.mem_cons_self s h
    have hrest : ∀ y ∈ xs, ∀ s, Inv s → Inv (body y s).2 := fun y hy =>
      hbody y (List.mem_cons_of_mem _ hy)
    simp only [forEach]
    split
    · rename_i s' heq
      rw [heq] at hnext
      exact ih hrest hnext
    · rename_i e s' heq
      rw [heq] at hnext
      exact hnext

theorem forEach_preserves (Inv : σ → Prop) (hbody : ∀ x s, Inv s → Inv (body x s).2)
    (xs : List α) (h : Inv s) : Inv (forEach body xs s).2 :=
  forEach_preserves_of_mem Inv (fun x _ => hbody x) h

/-- What a turn establishes holds at the end, if the turns keep it. -/
theorem forEach_establishes (Goal : σ → Prop) (hkeep : ∀ x s, Goal s → Goal (body x s).2)
    {xs before after : List α} {x : α} (hsplit : xs = before ++ x :: after)
    (hok : (forEach body xs s).1 = .ok ()) (hgoal : Goal (body x (forEach body before s).2).2) :
    Goal (forEach body xs s).2 := by
  have hturn := (forEach_ok_iff xs).mp hok before x after hsplit
  have hbefore : (forEach body before s).1 = .ok () := by
    apply (forEach_ok_iff before).mpr
    intro first y rest hfirst
    exact (forEach_ok_iff xs).mp hok first y (rest ++ x :: after) (by simp [hsplit, hfirst])
  rw [hsplit, forEach_append _ _ hbefore]
  simp only [forEach]
  cases hbody : body x (forEach body before s).2 with
  | mk result s' =>
    rw [hbody] at hturn hgoal
    simp only at hturn hgoal
    rw [hturn]
    exact forEach_preserves Goal hkeep after hgoal

end

end Rdap.Lib
