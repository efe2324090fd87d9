import Rdap.Python.Text

/-!
# Early returns and exceptions

A verifier of the source either returns `False` with a reason, raises, or falls through to
its next statement. `Except Stop` has these three ends, and the lemmas below turn the
fact that a block fell through into the conjunction of the checks it passed.
-/

set_option autoImplicit false

namespace Rdap.Python

universe u
variable {ε α β : Type u}

theorem bind_ok {x : Except ε α} {f : α → Except ε β} {b : β} :
    (x >>= f) = .ok b ↔ ∃ a, x = .ok a ∧ f a = .ok b := by
  cases x with
  | error e => simp [bind, Except.bind]
  | ok a => simp [bind, Except.bind]

theorem pure_ok {a b : α} : (pure a : Except ε α) = .ok b ↔ a = b := by
  simp [pure, Except.pure]

/-- A function applied to every result. -/
theorem mapM_map {ε α β γ : Type} (f : α → Except ε β) (g : β → γ) (items : List α) :
    (items.mapM fun a => (f a).map g) = (items.mapM f).map (List.map g) := by
  induction items with
  | nil => rfl
  | cons a rest ih =>
    simp only [List.mapM_cons, ih, bind, Except.bind, pure, Except.pure]
    cases f a with
    | error e => rfl
    | ok b => cases rest.mapM f <;> rfl

theorem toOption_some {x : Except ε α} {a : α} : x.toOption = some a ↔ x = .ok a := by
  cases x <;> simp [Except.toOption]

/-- The answer of a call that also returns a state. -/
theorem exists_of_fst {x : α × β} {a : α} (h : x.1 = a) : ∃ b, x = (a, b) :=
  ⟨x.2, Prod.ext h rfl⟩

/-- A computed option whose value passes a test. -/
theorem exists_of_any {x : Option α} {p : α → Prop} [DecidablePred p]
    (h : x.any (fun a => decide (p a)) = true) : ∃ a, x = some a ∧ p a := by
  obtain ⟨a, ha, hp⟩ := (Option.any_eq_true _ _).mp h
  exact ⟨a, ha, of_decide_eq_true hp⟩

inductive Stop where
  | rejected (reason : PyStr)
  | raised (exc : PyExc)
  deriving DecidableEq

variable {γ : Type}

/-- `if not c: return False, reason`. -/
def ensure (c : Prop) [Decidable c] (reason : PyStr) : Except Stop Unit :=
  if c then .ok () else .error (.rejected reason)

/-- A statement outside any `try`. -/
def raising : Except PyExc γ → Except Stop γ
  | .ok a => .ok a
  | .error e => .error (.raised e)

/-- `try: x` with a handler that returns `False, reason` for the kinds it catches. -/
def orReject (caught : ExcKind → Bool) (reason : PyExc → PyStr) : Except PyExc γ → Except Stop γ
  | .ok a => .ok a
  | .error e => .error (if caught e.kind then .rejected (reason e) else .raised e)

theorem ensure_ok {c : Prop} [Decidable c] {reason : PyStr} {u : Unit} :
    ensure c reason = .ok u ↔ c := by
  unfold ensure
  split <;> simp_all

theorem raising_ok {x : Except PyExc γ} {a : γ} : raising x = .ok a ↔ x = .ok a := by
  cases x <;> simp [raising]

theorem orReject_ok {caught : ExcKind → Bool} {reason : PyExc → PyStr} {x : Except PyExc γ}
    {a : γ} : orReject caught reason x = .ok a ↔ x = .ok a := by
  cases x <;> simp [orReject]

end Rdap.Python
