import Mathlib.Logic.Basic

/-!
# Programs that call operations

A program asks its surroundings for an operation, gets an answer, and goes on. A run is the
list of the operations done so far with their answers, whatever these are, and what is left
of the program: a crash, a cancellation or a scheduler may stop there. What a program can do
is read off its runs, and the runs of a sequence are those of its parts.
-/

set_option autoImplicit false

namespace Rdap.Lib

/-- `R e` is the type of the answers to the operation `e`. -/
inductive Program (E : Type) (R : E → Type) (α : Type) where
  | done (a : α)
  | call (e : E) (k : R e → Program E R α)

namespace Program
variable {E : Type} {R : E → Type} {α β : Type}

def bind : Program E R α → (α → Program E R β) → Program E R β
  | done a, f => f a
  | call e k, f => call e fun r => (k r).bind f

instance : Monad (Program E R) where
  pure := done
  bind := bind

/-- One operation. -/
def perform (e : E) : Program E R (R e) := call e done

@[simp] theorem pure_eq (a : α) : (pure a : Program E R α) = done a := rfl

@[simp] theorem done_bind (a : α) (f : α → Program E R β) : (done a : Program E R α) >>= f = f a :=
  rfl

@[simp] theorem call_bind (e : E) (k : R e → Program E R α) (f : α → Program E R β) :
    call e k >>= f = call e fun r => k r >>= f := rfl

@[simp] theorem perform_bind (e : E) (f : R e → Program E R β) :
    perform e >>= f = call e f := rfl

/-- An operation and its answer. -/
abbrev Event (E : Type) (R : E → Type) := (e : E) × R e

/-- The operations done, with their answers, and the rest of the program. -/
inductive Runs : Program E R α → List (Event E R) → Program E R α → Prop where
  | stop (p : Program E R α) : Runs p [] p
  | step (e : E) (k : R e → Program E R α) (r : R e) {es : List (Event E R)} {q : Program E R α}
      (h : Runs (k r) es q) : Runs (call e k) (⟨e, r⟩ :: es) q

theorem runs_done {a : α} {es : List (Event E R)} {q : Program E R α} :
    Runs (done a) es q ↔ es = [] ∧ q = done a := by
  constructor
  · intro h
    cases h
    exact ⟨rfl, rfl⟩
  · rintro ⟨rfl, rfl⟩
    exact .stop _

theorem runs_call {e : E} {k : R e → Program E R α} {es : List (Event E R)} {q : Program E R α} :
    Runs (call e k) es q ↔
      (es = [] ∧ q = call e k) ∨ ∃ r rest, es = ⟨e, r⟩ :: rest ∧ Runs (k r) rest q := by
  constructor
  · intro h
    cases h with
    | stop => exact Or.inl ⟨rfl, rfl⟩
    | step _ _ r h => exact Or.inr ⟨r, _, rfl, h⟩
  · rintro (⟨rfl, rfl⟩ | ⟨r, rest, rfl, h⟩)
    · exact .stop _
    · exact .step e k r h

/-- A sequence is stopped inside its first part, or the first part is done. -/
theorem runs_bind {p : Program E R α} {f : α → Program E R β} {es : List (Event E R)}
    {q : Program E R β} (h : Runs (p >>= f) es q) :
    (∃ e k, Runs p es (call e k) ∧ q = call e fun r => k r >>= f) ∨
      ∃ a first rest, es = first ++ rest ∧ Runs p first (done a) ∧ Runs (f a) rest q := by
  induction p generalizing es with
  | done a => exact Or.inr ⟨a, [], es, rfl, .stop _, h⟩
  | call e k ih =>
    rcases runs_call.mp h with ⟨rfl, rfl⟩ | ⟨r, rest, rfl, hrest⟩
    · exact Or.inl ⟨e, k, .stop _, rfl⟩
    · rcases ih r hrest with ⟨e', k', hp, rfl⟩ | ⟨a, first, rest', rfl, hfirst, hlast⟩
      · exact Or.inl ⟨e', k', .step e k r hp, rfl⟩
      · exact Or.inr ⟨a, ⟨e, r⟩ :: first, rest', rfl, .step e k r hfirst, hlast⟩

theorem Runs.bind {p : Program E R α} {f : α → Program E R β} {a : α}
    {first rest : List (Event E R)} {q : Program E R β} (hp : Runs p first (done a))
    (hf : Runs (f a) rest q) : Runs (p >>= f) (first ++ rest) q := by
  induction p generalizing first with
  | done b =>
    obtain ⟨rfl, hdone⟩ := runs_done.mp hp
    obtain rfl := done.inj hdone
    exact hf
  | call e k ih =>
    rcases runs_call.mp hp with ⟨_, hstop⟩ | ⟨r, tail, rfl, hrest⟩
    · cases hstop
    · exact .step e _ r (ih r hrest)

/-! ## What a program can call -/

/-- Every operation the program can call, whatever the answers were, meets the condition. -/
def Calls (Q : E → Prop) : Program E R α → Prop
  | done _ => True
  | call e k => Q e ∧ ∀ r, (k r).Calls Q

theorem calls_bind {Q : E → Prop} {p : Program E R α} {f : α → Program E R β} (hp : p.Calls Q)
    (hf : ∀ a, (f a).Calls Q) : (p >>= f).Calls Q := by
  induction p with
  | done a => exact hf a
  | call e k ih => exact ⟨hp.1, fun r => ih r (hp.2 r)⟩

@[simp] theorem calls_done {Q : E → Prop} (a : α) : (done a : Program E R α).Calls Q := trivial

@[simp] theorem calls_perform {Q : E → Prop} {e : E} :
    (perform e : Program E R (R e)).Calls Q ↔ Q e :=
  ⟨fun h => h.1, fun h => ⟨h, fun _ => trivial⟩⟩

/-- The same for sequences that an exception ends. -/
theorem calls_run_bind {ε : Type} {Q : E → Prop} {x : ExceptT ε (Program E R) α}
    {f : α → ExceptT ε (Program E R) β} (hx : x.run.Calls Q) (hf : ∀ a, (f a).run.Calls Q) :
    (x >>= f).run.Calls Q := by
  rw [ExceptT.run_bind]
  apply calls_bind hx
  intro result
  cases result with
  | error e => trivial
  | ok a => exact hf a

theorem calls_run_lift {ε : Type} {Q : E → Prop} {x : Program E R α} (hx : x.Calls Q) :
    (ExceptT.lift x : ExceptT ε (Program E R) α).run.Calls Q := by
  apply calls_bind hx
  intro a
  trivial

theorem Runs.calls {Q : E → Prop} {p q : Program E R α} {es : List (Event E R)}
    (hrun : Runs p es q) (hp : p.Calls Q) : ∀ event ∈ es, Q event.1 := by
  induction hrun with
  | stop => simp
  | step e k r h ih =>
    intro event hmem
    rcases List.mem_cons.mp hmem with rfl | hmem
    · exact hp.1
    · exact ih (hp.2 r) event hmem

end Program

end Rdap.Lib
