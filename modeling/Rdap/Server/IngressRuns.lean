import Rdap.Server.IngressSlots

/-!
# Bodies and slots of the ingress

What a call did is told by what its awaits ended with: it called the application just if these got it a
slot, a complete body within the limit, and the authenticator's consent. The slot it took it gives back
when it leaves the block, wherever that is.
-/

set_option autoImplicit false

namespace Rdap.Server
open Python Protocol Lib Identity Agent

/-! ## Collecting -/

theorem collect_chunks {maxBodyBytes : Nat} (chunks : List Bytes) (events : List ReceiveEvent) (acc : Bytes)
    (h : acc.length + chunks.flatten.length ≤ maxBodyBytes) :
    collect maxBodyBytes acc (chunks.map (.request · true) ++ events) =
      collect maxBodyBytes (acc ++ chunks.flatten) events := by
  induction chunks generalizing acc with
  | nil => simp
  | cons chunk chunks ih =>
    rw [List.flatten_cons, List.length_append] at h
    have hroom : ¬maxBodyBytes < acc.length + chunk.length := by omega
    rw [List.map_cons, List.cons_append, collect, if_neg hroom, if_pos rfl,
      ih (acc ++ chunk) (by rw [List.length_append]; omega), List.flatten_cons, List.append_assoc]

/-- A body is too large or complete by its length alone, wherever it is cut. -/
theorem collect_carries {maxBodyBytes : Nat} {events rest : List ReceiveEvent} {body : Bytes}
    (h : Carries events body rest) (acc : Bytes) :
    collect maxBodyBytes acc events =
      if maxBodyBytes < acc.length + body.length then .tooLarge else .complete (acc ++ body) rest := by
  obtain ⟨chunks, last, rfl, rfl⟩ := h
  induction chunks generalizing acc with
  | nil => simp [collect]
  | cons chunk chunks ih =>
    rw [List.map_cons, List.cons_append, collect]
    by_cases hroom : maxBodyBytes < acc.length + chunk.length
    · rw [if_pos hroom, if_pos]
      simp only [List.flatten_cons, List.length_append]
      omega
    · rw [if_neg hroom, if_pos rfl, ih]
      simp only [List.flatten_cons, List.length_append, List.append_assoc, Nat.add_assoc]

/-- What has been decided stays so when more events come. -/
theorem collect_append {maxBodyBytes : Nat} {acc : Bytes} {events : List ReceiveEvent}
    (h : collect maxBodyBytes acc events ≠ .timeout) (more : List ReceiveEvent) :
    collect maxBodyBytes acc (events ++ more) =
      match collect maxBodyBytes acc events with
      | .complete body rest => .complete body (rest ++ more)
      | other => other := by
  induction events generalizing acc with
  | nil => exact absurd rfl h
  | cons event events ih =>
    cases event with
    | disconnect => rfl
    | other => rfl
    | request chunk moreBody =>
      simp only [List.cons_append, collect] at h ⊢
      by_cases hroom : maxBodyBytes < acc.length + chunk.length
      · simp only [if_pos hroom]
      · simp only [if_neg hroom] at h ⊢
        cases moreBody with
        | false => rfl
        | true => exact ih h

/-! ## Slots -/

section
variable {P : Platform} {m : RpcIngressLimitMiddleware} {scope : Scope}

/-- The wakes by which a call is given up. -/
def Wake.Failure : Wake → Prop
  | .queueTimeout | .bodyTimeout | .raised _ | .cancelled => True
  | _ => False

/-- What a step can do. -/
theorem step_cases {c d : RpcCall} {wake : Wake} {use : SlotUse} (h : c.step P m scope wake = some (d, use)) :
    (∃ inside b, c.phase = .holding inside ∧ c.inside P m scope inside wake = some b ∧ leave b = (d, use)) ∨
    (c.phase = .queued ∧ wake = .acquired ∧ use = .take ∧
      d = { c with phase := .holding (.reading []), acquired := c.acquired + 1 }) ∨
    (c.phase = .queued ∧ wake.Failure ∧ use = .keep ∧
      (d = { c with phase := .refusing (.error 503 hintRpcCapacity)
                    refusals := c.refusals ++ [.error 503 hintRpcCapacity] } ∨
        ∃ ending, d = { c with phase := .finished ending })) ∨
    (∃ refusal ending, c.phase = .refusing refusal ∧ use = .keep ∧ d = { c with phase := .finished ending }) ∨
    (∃ phase handed, c.phase = .passing ∧ use = .keep ∧ (phase = .passing ∨ ∃ ending, phase = .finished ending) ∧
      d = { c with phase, handed }) := by
  unfold RpcCall.step at h
  split at h
  · rename_i hphase
    obtain ⟨b, hb, hleave⟩ := Option.map_eq_some_iff.mp h
    exact Or.inl ⟨_, b, hphase, hb, hleave⟩
  all_goals
    rename_i hphase
    try cases h
  · exact Or.inr (Or.inl ⟨hphase, rfl, rfl, rfl⟩)
  · exact Or.inr (Or.inr (Or.inl ⟨hphase, trivial, rfl, Or.inl rfl⟩))
  · exact Or.inr (Or.inr (Or.inr (Or.inr ⟨.passing, _, hphase, rfl, Or.inl rfl, by rw [← hphase]⟩)))
  · exact Or.inr (Or.inr (Or.inr (Or.inl ⟨_, _, hphase, rfl, rfl⟩)))
  · exact Or.inr (Or.inr (Or.inr (Or.inr ⟨_, c.handed, hphase, rfl, Or.inr ⟨_, rfl⟩, rfl⟩)))
  · exact Or.inr (Or.inr (Or.inl ⟨hphase, trivial, rfl, Or.inr ⟨_, rfl⟩⟩))
  · exact Or.inr (Or.inr (Or.inr (Or.inl ⟨_, _, hphase, rfl, rfl⟩)))
  · exact Or.inr (Or.inr (Or.inr (Or.inr ⟨_, c.handed, hphase, rfl, Or.inr ⟨_, rfl⟩, rfl⟩)))
  · exact Or.inr (Or.inr (Or.inl ⟨hphase, trivial, rfl, Or.inr ⟨_, rfl⟩⟩))
  · exact Or.inr (Or.inr (Or.inr (Or.inl ⟨_, _, hphase, rfl, rfl⟩)))
  · exact Or.inr (Or.inr (Or.inr (Or.inr ⟨_, c.handed, hphase, rfl, Or.inr ⟨_, rfl⟩, rfl⟩)))

theorem collected_counts (c : RpcCall) (body : Bytes) :
    (c.collected m scope body).1.acquired = c.acquired ∧ (c.collected m scope body).1.released = c.released := by
  unfold RpcCall.collected
  split
  · exact ⟨rfl, rfl⟩
  · split
    · exact ⟨rfl, rfl⟩
    · split <;> exact ⟨rfl, rfl⟩

theorem chunk_counts (c : RpcCall) (body : Bytes) (event : ReceiveEvent) :
    (c.chunk m scope body event).1.acquired = c.acquired ∧
      (c.chunk m scope body event).1.released = c.released := by
  cases event with
  | disconnect => exact ⟨rfl, rfl⟩
  | other => exact ⟨rfl, rfl⟩
  | request chunk moreBody =>
    unfold RpcCall.chunk
    dsimp only
    split
    · exact ⟨rfl, rfl⟩
    · split
      · exact ⟨rfl, rfl⟩
      · exact collected_counts c _

theorem judged_counts (c : RpcCall) (body : Bytes) (answer : Except PyExc (Bool × PyStr × PyStr)) :
    (c.judged m scope body answer).1.acquired = c.acquired ∧
      (c.judged m scope body answer).1.released = c.released := by
  unfold RpcCall.judged
  split
  · exact ⟨rfl, rfl⟩
  · split <;> exact ⟨rfl, rfl⟩

/-- The block does nothing to the counts of slots; that is left to its end. -/
theorem inside_counts {c : RpcCall} {inside : Inside} {wake : Wake} {b : BlockStep}
    (h : c.inside P m scope inside wake = some b) :
    b.1.acquired = c.acquired ∧ b.1.released = c.released := by
  unfold RpcCall.inside at h
  split at h
  case h_2 => exact Option.some.inj h ▸ chunk_counts c _ _
  case h_4 =>
    obtain rfl := Option.some.inj h
    split <;> exact ⟨rfl, rfl⟩
  case h_5 =>
    obtain ⟨auth, -, rfl⟩ := Option.map_eq_some_iff.mp h
    exact judged_counts c _ _
  all_goals
    cases h
    try exact ⟨rfl, rfl⟩

/-- A slot is taken at most once, and given back just when the call is through with it. -/
def RpcCall.Counted (c : RpcCall) : Prop :=
  c.acquired ≤ 1 ∧ (c.Holds → c.acquired = 1 ∧ c.released = 0) ∧ (¬c.Holds → c.released = c.acquired) ∧
    (c.phase = .queued → c.acquired = 0)

theorem not_holds {c : RpcCall} (h : ∀ inside, c.phase ≠ .holding inside) : ¬c.Holds :=
  fun ⟨inside, hphase⟩ => h inside hphase

theorem counted_out {c : RpcCall} (hle : c.acquired ≤ 1) (hreleased : c.released = c.acquired)
    (hnot : ∀ inside, c.phase ≠ .holding inside) (hqueued : c.phase ≠ .queued) : c.Counted :=
  ⟨hle, fun h => absurd h (not_holds hnot), fun _ => hreleased, fun h => absurd h hqueued⟩

theorem step_counted {c d : RpcCall} {wake : Wake} {use : SlotUse} (hc : c.Counted)
    (h : c.step P m scope wake = some (d, use)) : d.Counted := by
  obtain ⟨hle, hheld, hout, hqueued⟩ := hc
  rcases step_cases h with ⟨inside, ⟨e, next⟩, hphase, hb, hleave⟩ | ⟨hphase, -, -, rfl⟩ | ⟨hphase, -, -, hd⟩ |
    ⟨refusal, ending, hphase, -, rfl⟩ | ⟨phase, handed, hphase, -, hnext, rfl⟩
  · obtain ⟨hacquired, hreleased⟩ := inside_counts hb
    obtain ⟨hone, hzero⟩ := hheld ⟨inside, hphase⟩
    dsimp only at hacquired hreleased
    cases next with
    | inl inside' =>
      obtain ⟨rfl, -⟩ := Prod.mk.inj hleave
      refine ⟨by dsimp only; omega, fun _ => ⟨by dsimp only; omega, by dsimp only; omega⟩, ?_, ?_⟩
      · intro hnot
        exact absurd ⟨inside', rfl⟩ hnot
      · intro hphase'
        cases hphase'
    | inr ending =>
      obtain ⟨rfl, -⟩ := Prod.mk.inj hleave
      refine ⟨by dsimp only; omega, ?_, fun _ => by dsimp only; omega, ?_⟩
      · rintro ⟨inside', hphase'⟩
        cases hphase'
      · intro hphase'
        cases hphase'
  · have hzero := hqueued hphase
    have hnot : ¬c.Holds := not_holds fun inside => by simp [hphase]
    have hreleased := hout hnot
    refine ⟨by dsimp only; omega, fun _ => ⟨by dsimp only; omega, by dsimp only; omega⟩, ?_, ?_⟩
    · intro hnot'
      exact absurd ⟨_, rfl⟩ hnot'
    · intro hphase'
      cases hphase'
  · have hnot : ¬c.Holds := not_holds fun inside => by simp [hphase]
    have hreleased := hout hnot
    rcases hd with rfl | ⟨ending, rfl⟩
    · exact counted_out hle hreleased (by simp) (by simp)
    · exact counted_out hle hreleased (by simp) (by simp)
  · have hnot : ¬c.Holds := not_holds fun inside => by simp [hphase]
    exact counted_out hle (hout hnot) (by simp) (by simp)
  · have hnot : ¬c.Holds := not_holds fun inside => by simp [hphase]
    have hreleased := hout hnot
    rcases hnext with rfl | ⟨ending, rfl⟩
    · exact counted_out hle hreleased (by simp) (by simp)
    · exact counted_out hle hreleased (by simp) (by simp)

theorem step_honest (P : Platform) (m : RpcIngressLimitMiddleware) (scopes : Nat → Scope) :
    SlotPool.Honest RpcCall.Holds fun i c wake => c.step P m (scopes i) wake := by
  intro i c wake d use h
  rcases step_cases h with ⟨inside, ⟨e, next⟩, hphase, hb, hleave⟩ | ⟨hphase, -, rfl, rfl⟩ | ⟨hphase, -, rfl, hd⟩ |
    ⟨refusal, ending, hphase, rfl, rfl⟩ | ⟨phase, handed, hphase, rfl, hnext, rfl⟩
  · have hholds : c.Holds := ⟨inside, hphase⟩
    cases next with
    | inl inside' =>
      obtain ⟨rfl, rfl⟩ := Prod.mk.inj hleave
      exact ⟨fun _ => ⟨inside', rfl⟩, fun _ => hholds⟩
    | inr ending =>
      obtain ⟨rfl, rfl⟩ := Prod.mk.inj hleave
      exact ⟨hholds, fun ⟨_, hheld'⟩ => RpcPhase.noConfusion hheld'⟩
  · exact ⟨not_holds fun inside => by simp [hphase], _, rfl⟩
  · have hnot : ¬c.Holds := not_holds fun inside => by simp [hphase]
    refine ⟨fun hc => absurd hc hnot, ?_⟩
    rcases hd with rfl | ⟨ending, rfl⟩ <;> rintro ⟨_, hheld'⟩ <;> cases hheld'
  · have hnot : ¬c.Holds := not_holds fun inside => by simp [hphase]
    refine ⟨fun hc => absurd hc hnot, ?_⟩
    rintro ⟨_, hheld'⟩
    cases hheld'
  · have hnot : ¬c.Holds := not_holds fun inside => by simp [hphase]
    refine ⟨fun hc => absurd hc hnot, ?_⟩
    rcases hnext with rfl | ⟨ending, rfl⟩ <;> rintro ⟨_, hheld'⟩ <;> cases hheld'

end

end Rdap.Server
