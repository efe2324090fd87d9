import Mathlib.Logic.Function.Basic
import Rdap.Lib.Program

/-!
# Programs side by side

Tasks run on one world. A task relies on what the others do to the world between two of its operations, and
guarantees something of each operation of its own. Where the guarantee of every task is among what the
others rely on, each can be proved alone, and what it guarantees then holds of every step of every
interleaving, with tasks that start, stop half-way and are forgotten.
-/

set_option autoImplicit false

namespace Rdap.Lib

/-- How a task meets the world: what an operation may answer and make of it, what may happen in between, and
what it promises of its operations. -/
structure Contract (W E : Type) (R : E → Type) where
  effect : W → (e : E) → R e → W → Prop
  rely : W → W → Prop
  guarantee : W → W → Prop
  rely_refl : ∀ w, rely w w
  rely_trans : ∀ {u v w}, rely u v → rely v w → rely u w

namespace Program
variable {W E : Type} {R : E → Type} {α β : Type}

/-- From this world on, every operation keeps the guarantee and a result meets the condition, whatever the
operations answer and whatever is relied on happens in between. -/
def Keeps (c : Contract W E R) (post : α → W → Prop) : Program E R α → W → Prop
  | done a, w => ∀ v, c.rely w v → post a v
  | call e k, w => ∀ v, c.rely w v → ∀ r u, c.effect v e r u → c.guarantee v u ∧ Keeps c post (k r) u

variable {c : Contract W E R} {post : α → W → Prop}

theorem Keeps.relied {p : Program E R α} {w v : W} (h : p.Keeps c post w) (hv : c.rely w v) : p.Keeps c post v := by
  cases p with
  | done a => exact fun u hu => h u (c.rely_trans hv hu)
  | call e k => exact fun u hu => h u (c.rely_trans hv hu)

theorem Keeps.result {a : α} {w : W} (h : (done a : Program E R α).Keeps c post w) : post a w :=
  h w (c.rely_refl w)

theorem Keeps.mono {mid : α → W → Prop} {p : Program E R α} {w : W} (h : p.Keeps c mid w)
    (himp : ∀ a v, mid a v → post a v) : p.Keeps c post w := by
  induction p generalizing w with
  | done a => exact fun v hv => himp a v (h v hv)
  | call e k ih =>
    intro v hv r u heffect
    obtain ⟨hguarantee, hrest⟩ := h v hv r u heffect
    exact ⟨hguarantee, ih r hrest⟩

/-- The sequence: the second part goes on where the first has ended. -/
theorem Keeps.bind {mid : α → W → Prop} {next : β → W → Prop} {p : Program E R α} {f : α → Program E R β} {w : W}
    (h : p.Keeps c mid w) (hf : ∀ a v, mid a v → (f a).Keeps c next v) : (p >>= f).Keeps c next w := by
  induction p generalizing w with
  | done a => exact hf a w h.result
  | call e k ih =>
    intro v hv r u heffect
    obtain ⟨hguarantee, hrest⟩ := h v hv r u heffect
    exact ⟨hguarantee, ih r hrest⟩

/-- What every step may do, done any number of times, relates the start to the end. -/
theorem Keeps.along {Q : W → W → Prop} (hrefl : ∀ w, Q w w) (htrans : ∀ {u v w}, Q u v → Q v w → Q u w)
    (hrely : ∀ w v, c.rely w v → Q w v) (hguarantee : ∀ w v, c.guarantee w v → Q w v) {p : Program E R α}
    {w : W} (h : p.Keeps c post w) : p.Keeps c (fun a v => post a v ∧ Q w v) w := by
  have hfrom : ∀ (p : Program E R α) (o w : W), Q o w → p.Keeps c post w →
      p.Keeps c (fun a v => post a v ∧ Q o v) w := by
    intro p o
    induction p with
    | done a => exact fun w ho h v hv => ⟨h v hv, htrans ho (hrely w v hv)⟩
    | call e k ih =>
      intro w ho h v hv r u heffect
      obtain ⟨hkeep, hrest⟩ := h v hv r u heffect
      exact ⟨hkeep, ih r u (htrans (htrans ho (hrely w v hv)) (hguarantee v u hkeep)) hrest⟩
  exact hfrom p w w (hrefl w) h

theorem keeps_perform {e : E} {post : R e → W → Prop} {w : W}
    (h : ∀ v, c.rely w v → ∀ r u, c.effect v e r u → c.guarantee v u ∧ ∀ v', c.rely u v' → post r v') :
    (perform e : Program E R (R e)).Keeps c post w := by
  intro v hv r u heffect
  exact h v hv r u heffect

/-- A result whose condition the others do not spoil. -/
theorem keeps_done {a : α} {w : W} (h : ∀ v, c.rely w v → post a v) : (done a : Program E R α).Keeps c post w := h

end Program

/-! ## Interleavings -/

namespace Parallel
variable {W E ι : Type} {R : E → Type} {α : Type} [DecidableEq ι]

/-- A task: the world it has started in, and what is left of its program. -/
structure Task (W E : Type) (R : E → Type) (α : Type) where
  origin : W
  rest : Program E R α

/-- The world, and the task at each place, if one runs there. -/
structure Site (W E ι : Type) (R : E → Type) (α : Type) where
  world : W
  tasks : ι → Option (Task W E R α)

/-- Who moves, and how. -/
inductive Move (E ι α : Type) (R : E → Type) where
  | start (i : ι) (p : Program E R α)
  | act (i : ι) (e : E) (r : R e)
  | leave (i : ι)
  | outside

/-- `outside` is what others than the tasks do to the world. A task may be left at any point. -/
inductive Step (contract : ι → Contract W E R) (allowed : ι → Program E R α → Prop)
    (outside : Site W E ι R α → W → Prop) : Site W E ι R α → Move E ι α R → Site W E ι R α → Prop
  | start {s : Site W E ι R α} (i : ι) (p : Program E R α) (hfree : s.tasks i = none) (hallowed : allowed i p) :
      Step contract allowed outside s (.start i p)
        ⟨s.world, Function.update s.tasks i (some ⟨s.world, p⟩)⟩
  | act {s : Site W E ι R α} (i : ι) (o : W) (e : E) (k : R e → Program E R α) (r : R e) (u : W)
      (hrunning : s.tasks i = some ⟨o, .call e k⟩) (heffect : (contract i).effect s.world e r u) :
      Step contract allowed outside s (.act i e r) ⟨u, Function.update s.tasks i (some ⟨o, k r⟩)⟩
  | leave {s : Site W E ι R α} (i : ι) :
      Step contract allowed outside s (.leave i) ⟨s.world, Function.update s.tasks i none⟩
  | outside {s : Site W E ι R α} (u : W) (houtside : outside s u) :
      Step contract allowed outside s .outside ⟨u, s.tasks⟩

/-- The moves of a run, the last one first. -/
inductive Run (contract : ι → Contract W E R) (allowed : ι → Program E R α → Prop)
    (outside : Site W E ι R α → W → Prop) (s : Site W E ι R α) : Site W E ι R α → Prop
  | refl : Run contract allowed outside s s
  | step {t u : Site W E ι R α} {m : Move E ι α R} (h : Run contract allowed outside s t)
      (hstep : Step contract allowed outside t m u) : Run contract allowed outside s u

section
variable {contract : ι → Contract W E R} {allowed : ι → Program E R α → Prop}
  {outside : Site W E ι R α → W → Prop} {post : ι → W → α → W → Prop}

/-- Every task keeps its contract from here on, and meets the condition on its start, result and end. -/
def Sound (contract : ι → Contract W E R) (post : ι → W → α → W → Prop) (s : Site W E ι R α) : Prop :=
  ∀ i t, s.tasks i = some t → t.rest.Keeps (contract i) (post i t.origin) s.world

/-- What the tasks ask of each other, of the programs that start and of the rest of the world. -/
structure Compatible (contract : ι → Contract W E R) (allowed : ι → Program E R α → Prop)
    (outside : Site W E ι R α → W → Prop) (post : ι → W → α → W → Prop) : Prop where
  peers : ∀ i j, i ≠ j → ∀ w u, (contract i).guarantee w u → (contract j).rely w u
  starts : ∀ i p, allowed i p → ∀ w, p.Keeps (contract i) (post i w) w
  outside : ∀ s u i t, outside s u → s.tasks i = some t → (contract i).rely s.world u

theorem sound_update {tasks : ι → Option (Task W E R α)} {i : ι} {q : Option (Task W E R α)} {w u : W}
    (hsound : Sound contract post ⟨w, tasks⟩) (hothers : ∀ j, i ≠ j → (contract j).rely w u)
    (hq : ∀ t, q = some t → t.rest.Keeps (contract i) (post i t.origin) u) :
    Sound contract post ⟨u, Function.update tasks i q⟩ := by
  intro j t hj
  have hupdate : Function.update tasks i q j = some t := hj
  by_cases hij : i = j
  · obtain rfl := hij
    rw [Function.update_self] at hupdate
    exact hq t hupdate
  · rw [Function.update_of_ne (Ne.symm hij)] at hupdate
    exact (hsound j t hupdate).relied (hothers j hij)

theorem sound_step (hc : Compatible contract allowed outside post) {s t : Site W E ι R α} {m : Move E ι α R}
    (hsound : Sound contract post s) (hstep : Step contract allowed outside s m t) : Sound contract post t := by
  cases hstep with
  | start i p hfree hallowed =>
    apply sound_update hsound
    · exact fun j _ => (contract j).rely_refl _
    · intro q hq
      obtain rfl := Option.some.inj hq
      exact hc.starts i p hallowed _
  | act i o e k r u hrunning heffect =>
    obtain ⟨hguarantee, hrest⟩ := hsound i _ hrunning _ ((contract i).rely_refl _) r u heffect
    apply sound_update hsound
    · exact fun j hij => hc.peers i j hij _ _ hguarantee
    · intro q hq
      obtain rfl := Option.some.inj hq
      exact hrest
  | leave i =>
    apply sound_update hsound
    · exact fun j _ => (contract j).rely_refl _
    · intro q hq
      cases hq
  | outside u houtside =>
    intro j q hj
    exact (hsound j q hj).relied (hc.outside s u j q houtside hj)

theorem sound_run (hc : Compatible contract allowed outside post) {s t : Site W E ι R α}
    (hsound : Sound contract post s) (hrun : Run contract allowed outside s t) : Sound contract post t := by
  induction hrun with
  | refl => exact hsound
  | step _ hstep ih => exact sound_step hc ih hstep

/-- Every operation of every task keeps its guarantee. -/
theorem guaranteed (hc : Compatible contract allowed outside post) {s t u : Site W E ι R α} {i : ι} {e : E} {r : R e}
    (hsound : Sound contract post s) (hrun : Run contract allowed outside s t)
    (hstep : Step contract allowed outside t (.act i e r) u) : (contract i).guarantee t.world u.world := by
  cases hstep with
  | act i o e k r v hrunning heffect =>
    exact (sound_run hc hsound hrun i _ hrunning _ ((contract i).rely_refl _) r v heffect).1

/-- A task that has come to its end has met its condition. -/
theorem finished (hc : Compatible contract allowed outside post) {s t : Site W E ι R α} {i : ι} {o : W} {a : α}
    (hsound : Sound contract post s) (hrun : Run contract allowed outside s t)
    (hdone : t.tasks i = some ⟨o, .done a⟩) : post i o a t.world :=
  (sound_run hc hsound hrun i _ hdone).result

/-- A preorder that every guarantee and every step from outside respects relates the ends of a run. -/
theorem run_world {Q : W → W → Prop} (hrefl : ∀ w, Q w w) (htrans : ∀ {u v w}, Q u v → Q v w → Q u w)
    (hc : Compatible contract allowed outside post) (hguarantee : ∀ i w u, (contract i).guarantee w u → Q w u)
    (houtside : ∀ s u, outside s u → Q s.world u) {s t : Site W E ι R α} (hsound : Sound contract post s)
    (hrun : Run contract allowed outside s t) : Q s.world t.world := by
  induction hrun with
  | refl => exact hrefl _
  | step hrun hstep ih =>
    apply htrans ih
    cases hstep with
    | start i p hfree hallowed => exact hrefl _
    | act i o e k r u hrunning heffect =>
      exact hguarantee i _ _ (guaranteed hc hsound hrun (.act i o e k r u hrunning heffect))
    | leave i => exact hrefl _
    | outside u h => exact houtside _ _ h

end

end Parallel

end Rdap.Lib
