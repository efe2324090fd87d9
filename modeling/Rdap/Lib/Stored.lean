import Rdap.Lib.Program

/-!
# Programs over a store

Every operation, with its answer, changes a store. What holds wherever a run may stop is found by going
through the program, one operation at a time.
-/

set_option autoImplicit false

namespace Rdap.Lib.Program

variable {E : Type} {R : E → Type} {α β σ : Type} {apply : σ → Event E R → σ} {I : σ → Prop}

/-- The invariant holds of the store before and after each operation, and the last condition of the answer and
the store at the end. -/
def Secure (apply : σ → Event E R → σ) (I : σ → Prop) (post : α → σ → Prop) : Program E R α → σ → Prop
  | done a, s => I s ∧ post a s
  | call e k, s => I s ∧ ∀ r, (k r).Secure apply I post (apply s ⟨e, r⟩)

theorem Secure.start {post : α → σ → Prop} {p : Program E R α} {s : σ} (h : p.Secure apply I post s) : I s := by
  cases p with
  | done a => exact h.1
  | call e k => exact h.1

/-- What is left of the program after a run is secure in the store that the run left. -/
theorem Secure.runs {post : α → σ → Prop} {p q : Program E R α} {es : List (Event E R)} {s : σ}
    (h : p.Secure apply I post s) (hrun : Runs p es q) : q.Secure apply I post (es.foldl apply s) := by
  induction hrun generalizing s with
  | stop p => exact h
  | step e k r _ ih => exact ih (h.2 r)

theorem Secure.bind {post : β → σ → Prop} {p : Program E R α} {f : α → Program E R β} {s : σ}
    (h : p.Secure apply I (fun a t => (f a).Secure apply I post t) s) : (p >>= f).Secure apply I post s := by
  induction p generalizing s with
  | done a => exact h.2
  | call e k ih => exact ⟨h.1, fun r => ih r (h.2 r)⟩

theorem Secure.mono {post post' : α → σ → Prop} (hpost : ∀ a s, I s → post a s → post' a s) {p : Program E R α}
    {s : σ} (h : p.Secure apply I post s) : p.Secure apply I post' s := by
  induction p generalizing s with
  | done a => exact ⟨h.1, hpost a s h.1 h.2⟩
  | call e k ih => exact ⟨h.1, fun r => ih r (h.2 r)⟩

end Rdap.Lib.Program
