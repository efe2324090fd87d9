import Mathlib.Data.List.Basic

/-!
# Claim-once cells

A cell is fresh, taken by a claim, or settled with a reply. The history of a cell determines
its state, so a store is correct for a key when every claim was answered as the state after
its earlier history says. Histories are lists with the last operation first.
-/

set_option autoImplicit false

namespace Rdap.Lib

universe u
variable {ρ : Type u}

inductive Cell (ρ : Type u) where
  | fresh
  | taken
  | settled (reply : ρ)

/-- What a claim is told. -/
inductive Answer (ρ : Type u) where
  | new
  | interrupted
  | completed (reply : ρ)
  deriving DecidableEq

inductive CellOp (ρ : Type u) where
  | claim (answer : Answer ρ)
  | settle (reply : ρ)
  deriving DecidableEq

def CellOp.isClaim : CellOp ρ → Bool
  | claim _ => true
  | settle _ => false

namespace Cell

def answer : Cell ρ → Answer ρ
  | fresh => .new
  | taken => .interrupted
  | settled reply => .completed reply

/-- The cell after a claim. -/
def claim : Cell ρ → Cell ρ
  | fresh => taken
  | c => c

def after : List (CellOp ρ) → Cell ρ
  | [] => fresh
  | .claim _ :: earlier => (after earlier).claim
  | .settle reply :: _ => settled reply

@[simp] theorem after_nil : after ([] : List (CellOp ρ)) = fresh := rfl

@[simp] theorem after_claim (a : Answer ρ) (h : List (CellOp ρ)) :
    after (.claim a :: h) = (after h).claim := rfl

@[simp] theorem after_settle (r : ρ) (h : List (CellOp ρ)) :
    after (.settle r :: h) = settled r := rfl

theorem claim_ne_fresh (c : Cell ρ) : c.claim ≠ fresh := by
  cases c <;> simp [claim]

theorem answer_eq_new {c : Cell ρ} : c.answer = .new ↔ c = fresh := by
  cases c <;> simp [answer]

/-- Only the empty history leaves a cell fresh. -/
theorem after_eq_fresh {h : List (CellOp ρ)} : after h = fresh ↔ h = [] := by
  cases h with
  | nil => simp
  | cons op h =>
    cases op with
    | claim a => simp [claim_ne_fresh]
    | settle r => simp

end Cell

/-- Every claim of the history got the answer its earlier history calls for. -/
def Consistent : List (CellOp ρ) → Prop
  | [] => True
  | .claim a :: earlier => a = (Cell.after earlier).answer ∧ Consistent earlier
  | .settle _ :: earlier => earlier ≠ [] ∧ Consistent earlier

/-- The reply of the last settlement. -/
def lastReply : List (CellOp ρ) → Option ρ
  | [] => none
  | .claim _ :: earlier => lastReply earlier
  | .settle reply :: _ => some reply

/-- How many claims were told that they are the first. -/
def newClaims : List (CellOp ρ) → Nat
  | [] => 0
  | .claim .new :: earlier => newClaims earlier + 1
  | _ :: earlier => newClaims earlier

namespace Consistent

theorem suffix {later earlier : List (CellOp ρ)} (h : Consistent (later ++ earlier)) :
    Consistent earlier := by
  induction later with
  | nil => exact h
  | cons op later ih =>
    cases op with
    | claim a => exact ih h.2
    | settle r => exact ih h.2

/-- A history with an operation in it has no new claim besides the first one. -/
theorem newClaims_le {h : List (CellOp ρ)} (hc : Consistent h) : newClaims h ≤ 1 := by
  induction h with
  | nil => exact Nat.zero_le 1
  | cons op h ih =>
    cases op with
    | settle r => exact ih hc.2
    | claim a =>
      cases a with
      | interrupted => exact ih hc.2
      | completed r => exact ih hc.2
      | new =>
        have hempty : h = [] := Cell.after_eq_fresh.mp (Cell.answer_eq_new.mp hc.1.symm)
        simp [newClaims, hempty]

end Consistent

theorem newClaims_eq_zero {h : List (CellOp ρ)} (hno : ∀ op ∈ h, op.isClaim = false) :
    newClaims h = 0 := by
  induction h with
  | nil => rfl
  | cons op h ih =>
    cases op with
    | claim answer => exact absurd (hno _ List.mem_cons_self) (by simp [CellOp.isClaim])
    | settle reply => exact ih fun x hx => hno x (List.mem_cons_of_mem _ hx)

theorem after_of_lastReply {h : List (CellOp ρ)} {r : ρ} (hr : lastReply h = some r) :
    Cell.after h = .settled r := by
  induction h with
  | nil => cases hr
  | cons op h ih =>
    cases op with
    | claim a => simp [ih hr, Cell.claim]
    | settle reply =>
      obtain rfl : reply = r := Option.some.inj hr
      rfl

theorem after_of_unsettled {h : List (CellOp ρ)} (hne : h ≠ []) (hr : lastReply h = none) :
    Cell.after h = .taken := by
  induction h with
  | nil => exact absurd rfl hne
  | cons op h ih =>
    cases op with
    | settle reply => cases hr
    | claim a =>
      by_cases hempty : h = []
      · simp [hempty, Cell.claim]
      · simp [ih hempty hr, Cell.claim]

/-- What a claim of a consistent history was told: the last reply once there is one, and
that it was interrupted if there is none but the cell was claimed before. -/
theorem claim_answer {later earlier : List (CellOp ρ)} {a : Answer ρ}
    (hc : Consistent (later ++ .claim a :: earlier)) :
    (∀ r, lastReply earlier = some r → a = .completed r) ∧
      (lastReply earlier = none → earlier ≠ [] → a = .interrupted) := by
  have ha := hc.suffix.1
  constructor
  · intro r hr
    rw [ha, after_of_lastReply hr]
    rfl
  · intro hnone hne
    rw [ha, after_of_unsettled hne hnone]
    rfl

end Rdap.Lib
