import Rdap.Python.JsonSpaced
import Rdap.Python.JsonValues

/-!
# Writing what was read

A value that `json.loads` returned is no deeper than the reader goes, has one member for each name and
integers that can be printed. It is written again without fail, and read back as it is.
-/

set_option autoImplicit false

namespace Rdap.Python.Json

variable {P : Platform}

/-- A numeral is read as a number or as an infinite one. -/
def NumeralFloats (P : Platform) : Prop :=
  ∀ {s rest : PyStr} {bits : UInt64}, scanNumeral P s = .ok (.float bits, rest) →
    isFinite bits = true ∨ bits = infinity ∨ bits = negInfinity

/-! ## Depth -/

theorem depthItems_le_iff {vs : List Value} {n : Nat} : depthItems vs ≤ n ↔ ∀ v ∈ vs, depth v ≤ n := by
  induction vs with
  | nil => simp [depthItems]
  | cons v vs ih => rw [depthItems, Nat.max_le, ih, List.forall_mem_cons]

theorem depthMembers_le_iff {items : Dict} {n : Nat} :
    depthMembers items ≤ n ↔ ∀ item ∈ items, depth item.2 ≤ n := by
  induction items with
  | nil => simp [depthMembers]
  | cons item items ih => rw [depthMembers, Nat.max_le, ih, List.forall_mem_cons]

theorem depth_closed : ScanClosed P fun n v => depth v ≤ n where
  word n := words_forall (R := fun v => depth v ≤ n) (Nat.zero_le n) (fun _ => Nat.zero_le n) fun _ _ =>
    Nat.zero_le n
  int n _ _ _ := Nat.zero_le n
  float n _ _ _ _ := Nat.zero_le n
  str n _ := Nat.zero_le n
  list h := Nat.succ_le_succ (depthItems_le_iff.mpr h)
  dict h := Nat.succ_le_succ (depthMembers_le_iff.mpr h)

/-! ## Settled values -/

theorem settleItems_eq {vs : List Value} (h : ∀ v ∈ vs, settle v = v) : settleItems vs = vs := by
  induction vs with
  | nil => rfl
  | cons v vs ih =>
    obtain ⟨hv, hvs⟩ := List.forall_mem_cons.mp h
    rw [settleItems, hv, ih hvs]

theorem settleMembers_eq {items : Dict} (h : ∀ item ∈ items, settle item.2 = item.2) :
    settleMembers items = items := by
  induction items with
  | nil => rfl
  | cons item items ih =>
    obtain ⟨hitem, hitems⟩ := List.forall_mem_cons.mp h
    rw [settleMembers, hitem, ih hitems]

theorem dictOf_names (items : Dict) : ((dictOf items).map Prod.fst).Nodup := by
  have hfold : ∀ d : Dict, (d.map Prod.fst).Nodup →
      ((items.foldl (fun d item => dictSet d item.1 item.2) d).map Prod.fst).Nodup := by
    induction items with
    | nil => exact fun d hd => hd
    | cons item items ih => exact fun d hd => ih _ (dictSet_nodup hd item.1 item.2)
  exact hfold [] List.nodup_nil

theorem settle_float {bits : UInt64} (h : isFinite bits = true ∨ bits = infinity ∨ bits = negInfinity) :
    settle (.float bits) = .float bits := by
  rw [settle, reread, if_pos h]

theorem settle_closed (hN : NumeralFloats P) : ScanClosed P fun _ v => settle v = v where
  word _ := by
    apply words_forall (R := fun v => settle v = v) rfl (fun _ => rfl)
    intro bits hbits
    simp only [List.mem_cons, List.not_mem_nil, or_false] at hbits
    rcases hbits with rfl | hbits
    · rfl
    · exact settle_float (Or.inr hbits)
  int _ _ _ _ := rfl
  float _ _ _ _ h := settle_float (hN h)
  str _ _ := rfl
  list h := by rw [settle, settleItems_eq h]
  dict h := by rw [settle_dict (dictOf_names _), settleMembers_eq h]

/-! ## Writing -/

mutual

theorem encodeSpaced_defined : (v : Value) → Printable v → ∃ text, encodeSpaced P v = .ok text
  | .none, _ => ⟨_, rfl⟩
  | .bool true, _ => ⟨_, rfl⟩
  | .bool false, _ => ⟨_, rfl⟩
  | .int _, h => ⟨_, h⟩
  | .float _, _ => ⟨_, rfl⟩
  | .str _, _ => ⟨_, rfl⟩
  | .list [], _ => ⟨_, rfl⟩
  | .list (v :: vs), h => by
    obtain ⟨first, hfirst⟩ := encodeSpaced_defined v h.1
    obtain ⟨others, hothers⟩ := encodeItemsSpaced_defined vs h.2
    exact ⟨_, by rw [encodeSpaced, hfirst, hothers]; rfl⟩
  | .dict [], _ => ⟨_, rfl⟩
  | .dict ((_, v) :: items), h => by
    obtain ⟨first, hfirst⟩ := encodeSpaced_defined v h.1
    obtain ⟨others, hothers⟩ := encodeMembersSpaced_defined items h.2
    exact ⟨_, by rw [encodeSpaced, hfirst, hothers]; rfl⟩

theorem encodeItemsSpaced_defined : (vs : List Value) → PrintableItems vs →
    ∃ text, encodeItemsSpaced P vs = .ok text
  | [], _ => ⟨_, rfl⟩
  | v :: vs, h => by
    obtain ⟨item, hitem⟩ := encodeSpaced_defined v h.1
    obtain ⟨others, hothers⟩ := encodeItemsSpaced_defined vs h.2
    exact ⟨_, by rw [encodeItemsSpaced, hitem, hothers]; rfl⟩

theorem encodeMembersSpaced_defined : (items : Dict) → PrintableMembers items →
    ∃ text, encodeMembersSpaced P items = .ok text
  | [], _ => ⟨_, rfl⟩
  | (_, v) :: items, h => by
    obtain ⟨item, hitem⟩ := encodeSpaced_defined v h.1
    obtain ⟨others, hothers⟩ := encodeMembersSpaced_defined items h.2
    exact ⟨_, by rw [encodeMembersSpaced, hitem, hothers]; rfl⟩

end

/-- What was read is written, and read back from there. -/
theorem dumpsSpaced_loaded (hP : ReprFloats P) (hN : NumeralFloats P) {s : PyStr} {v : Value}
    (h : loads P s = .ok v) : ∃ text, dumpsSpaced P v = .ok text ∧ loads P text = .ok v := by
  have hdepth := Nat.not_lt.mpr (loads_closed depth_closed h)
  obtain ⟨text, htext⟩ := encodeSpaced_defined (P := P) v (loads_printable h)
  have hdumps : dumpsSpaced P v = .ok text := by
    unfold dumpsSpaced
    rw [if_neg hdepth, htext]
  have hends : EndsNumeral [] := fun c hc => by cases hc
  have hloads := loads_dumpsSpaced hP hdumps rfl hends
  rw [List.append_nil, loads_closed (settle_closed hN) h] at hloads
  exact ⟨text, hdumps, hloads⟩

end Rdap.Python.Json
