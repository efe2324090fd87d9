import Rdap.Python.Control

/-!
# Guards that raise

`if not c: raise ValueError(message)` as a step of an `Except` block, and what is known when
such a block went through.
-/

set_option autoImplicit false

namespace Rdap.Python

/-- `if not c: raise ValueError(message)` -/
def orRaise (c : Prop) [Decidable c] (message : PyStr) : Except PyExc Unit :=
  if c then .ok () else valueError message

theorem orRaise_ok {c : Prop} [Decidable c] {message : PyStr} {u : Unit} :
    orRaise c message = .ok u ↔ c := by
  unfold orRaise
  split <;> simp_all [valueError]

theorem orRaise_pos {c : Prop} [Decidable c] {message : PyStr} (h : c) :
    orRaise c message = .ok () := if_pos h

theorem orRaise_error {c : Prop} [Decidable c] {message : PyStr} {e : PyExc} :
    orRaise c message = .error e ↔ ¬c ∧ e = ⟨.valueError, message⟩ := by
  unfold orRaise
  split <;> simp_all [valueError, eq_comm]

/-- `xs[i]` -/
def atIndex {α : Type} (xs : List α) (i : Nat) : Except PyExc α :=
  match xs[i]? with
  | some x => .ok x
  | none => .error ⟨.indexError, lit "index out of range"⟩

theorem mapM_ok {α β : Type} {f : α → Except PyExc β} {xs : List α} {ys : List β} :
    xs.mapM f = .ok ys ↔ List.Forall₂ (fun x y => f x = .ok y) xs ys := by
  induction xs generalizing ys with
  | nil =>
    rw [List.mapM_nil, List.forall₂_nil_left_iff, pure_ok]
    exact eq_comm
  | cons x xs ih =>
    rw [List.mapM_cons, List.forall₂_cons_left_iff]
    simp only [bind_ok, pure_ok, ih]
    constructor
    · rintro ⟨y, hy, rest, hrest, rfl⟩
      exact ⟨y, rest, hy, hrest, rfl⟩
    · rintro ⟨y, rest, hy, hrest, rfl⟩
      exact ⟨y, hy, rest, hrest, rfl⟩

theorem forM_ok_iff {α ε : Type} {f : α → Except ε Unit} {items : List α} :
    items.forM f = .ok () ↔ ∀ item ∈ items, f item = .ok () := by
  induction items with
  | nil => simp [pure, Except.pure]
  | cons item items ih =>
    rw [List.forM, bind_ok, List.forall_mem_cons]
    constructor
    · rintro ⟨u, hitem, hrest⟩
      exact ⟨hitem, ih.mp hrest⟩
    · rintro ⟨hitem, hrest⟩
      exact ⟨(), hitem, ih.mpr hrest⟩

theorem exists_of_mem_mapM {α β : Type} {f : α → Except PyExc β} {xs : List α} {ys : List β}
    (h : xs.mapM f = .ok ys) {y : β} (hy : y ∈ ys) : ∃ x ∈ xs, f x = .ok y := by
  have hall := mapM_ok.mp h
  clear h
  induction hall with
  | nil => cases hy
  | cons hhead hrest ih =>
    rcases List.mem_cons.mp hy with rfl | hy
    · exact ⟨_, List.mem_cons_self, hhead⟩
    · obtain ⟨x, hx, hfx⟩ := ih hy
      exact ⟨x, List.mem_cons_of_mem _ hx, hfx⟩

theorem mapM_defined {α β : Type} {f : α → Except PyExc β} {xs : List α}
    (h : ∀ x ∈ xs, ∃ y, f x = .ok y) : ∃ ys, xs.mapM f = .ok ys := by
  induction xs with
  | nil => exact ⟨[], rfl⟩
  | cons x xs ih =>
    obtain ⟨y, hy⟩ := h x List.mem_cons_self
    obtain ⟨ys, hys⟩ := ih fun a ha => h a (List.mem_cons_of_mem x ha)
    exact ⟨y :: ys, mapM_ok.mpr (.cons hy (mapM_ok.mp hys))⟩

end Rdap.Python
