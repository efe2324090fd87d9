import Rdap.Memory.SyncWorld

/-!
# What a synchronisation keeps

One rule for each function: from what is known of the head and of the remote before it, what is known when
it has returned. What a node knows is that its head is a certain commit and that the remote has another one
in its history; both stay true whatever the other nodes do.
-/

set_option autoImplicit false

namespace Rdap.Memory
open Python Lib Identity

variable {ι : Type} [DecidableEq ι] (repo : Repository) (repr : PyStr → PyStr) (name : Token) (i : ι)

/-- A condition on what was returned; an exception is not restricted. -/
def OnOk {α W : Type} (q : α → W → Prop) : Except PyExc α → W → Prop := fun r w => ∀ a, r = .ok a → q a w

def Sync.Keeps {α : Type} (q : α → TeamWorld ι → Prop) (x : Sync α) (w : TeamWorld ι) : Prop :=
  Program.Keeps (syncContract repo repr name i) (OnOk q) x.run w

/-- The head is `h`, and the remote has `o`. -/
structure At (h o : Token) (w : TeamWorld ι) : Prop where
  head : w.head i = h
  remote : Descends repo w.remote o

/-- True whatever the other nodes do. -/
def Stays (F : TeamWorld ι → Prop) : Prop := ∀ w v, F w → SyncRelies repo i w v → F v

/-! ## Rules -/

section
variable {repo repr name i} {α β : Type} {q : α → TeamWorld ι → Prop} {next : β → TeamWorld ι → Prop}
  {F : TeamWorld ι → Prop} {w : TeamWorld ι}

omit [DecidableEq ι] in
theorem at_stays (h o : Token) : Stays repo i (At repo i h o) := by
  intro w v hat hrely
  exact ⟨hrely.head.trans hat.head, hrely.remote.trans hat.remote⟩

omit [DecidableEq ι] in
theorem at_self (w : TeamWorld ι) : At repo i (w.head i) w.remote w := ⟨rfl, .refl⟩

theorem Sync.Keeps.bind {x : Sync α} {f : α → Sync β} (hx : Sync.Keeps repo repr name i q x w)
    (hf : ∀ a v, q a v → Sync.Keeps repo repr name i next (f a) v) :
    Sync.Keeps repo repr name i next (x >>= f) w := by
  unfold Sync.Keeps
  rw [ExceptT.run_bind]
  apply Program.Keeps.bind hx
  intro r v hr
  cases r with
  | error e =>
    apply Program.keeps_done
    intro u _ a ha
    cases ha
  | ok a => exact hf a v (hr a rfl)

theorem Sync.Keeps.mono {p : α → TeamWorld ι → Prop} {x : Sync α} (hx : Sync.Keeps repo repr name i p x w)
    (himp : ∀ a v, p a v → q a v) : Sync.Keeps repo repr name i q x w :=
  Program.Keeps.mono hx fun _ v hr a ha => himp a v (hr a ha)

theorem keeps_ofExcept {x : Except PyExc α} (hF : Stays repo i F) (hw : F w) (h : ∀ a, x = .ok a → ∀ v, F v → q a v) :
    Sync.Keeps repo repr name i q (Sync.ofExcept x) w := by
  apply Program.keeps_done
  intro v hv a ha
  exact h a ha v (hF w v hw hv)

theorem keeps_return {a : α} (hF : Stays repo i F) (hw : F w) (h : ∀ v, F v → q a v) :
    Sync.Keeps repo repr name i q (pure a) w := by
  apply Program.keeps_done
  intro v hv b hb
  obtain rfl : a = b := Except.ok.inj hb
  exact h v (hF w v hw hv)

theorem keeps_raise {message : PyStr} : Sync.Keeps repo repr name i q (Sync.raise message) w := by
  apply Program.keeps_done
  intro v _ a ha
  cases ha

/-- One call, and a fact that holds before it and after it. -/
theorem keeps_ask {call : SyncCall} {p : call.Answer → TeamWorld ι → Prop} (hF : Stays repo i F) (hw : F w)
    (hp : ∀ r, Stays repo i (p r))
    (h : ∀ v, F v → ∀ r u, syncEffect repo repr name i v call r u → SyncMoves repo i v u ∧ p r u) :
    Sync.Keeps repo repr name i p (Sync.ask call) w := by
  have hrun : (Sync.ask call).run = (Program.perform call >>= fun r => Program.done (.ok r)) := rfl
  unfold Sync.Keeps
  rw [hrun]
  refine Program.Keeps.bind (?_ : Program.Keeps (syncContract repo repr name i) p _ w) ?_
  · apply Program.keeps_perform
    intro v hv r u heffect
    obtain ⟨hmoves, hpost⟩ := h v (hF w v hw hv) r u heffect
    exact ⟨hmoves, fun v' hv' => hp r u v' hpost hv'⟩
  · intro r v hr
    apply Program.keeps_done
    intro u hu a ha
    obtain rfl := Except.ok.inj ha
    exact hp r v u hr hu

/-- A call that only reads. -/
theorem keeps_read (call : SyncCall) {p : call.Answer → Prop} (hF : Stays repo i F) (hw : F w)
    (hread : ∀ v r u, syncEffect repo repr name i v call r u → u = v)
    (h : ∀ v, F v → ∀ r, syncEffect repo repr name i v call r v → p r) :
    Sync.Keeps repo repr name i (fun r v => F v ∧ p r) (Sync.ask call) w := by
  apply keeps_ask hF hw
  · intro r v u hv hu
    exact ⟨hF v u hv.1 hu, hv.2⟩
  · intro v hv r u heffect
    obtain rfl := hread v r u heffect
    exact ⟨.refl repo i u, hv, h u hv r heffect⟩

/-- A command of which only the text is used. -/
theorem keeps_text (call : GitCall) (hF : Stays repo i F) (hw : F w)
    (hread : ∀ v r u, gitEffect repo name i v call r u → u = v) :
    Sync.Keeps repo repr name i (fun _ v => F v) (Sync.gitChecked call) w := by
  apply (keeps_read (.git call) (p := fun _ => True) hF hw hread fun _ _ _ _ => trivial).bind
  rintro r v ⟨hv, -⟩
  exact keeps_ofExcept hF hv fun _ _ _ hu => hu

theorem keeps_result (call : GitCall) (hF : Stays repo i F) (hw : F w)
    (hread : ∀ v r u, gitEffect repo name i v call r u → u = v) :
    Sync.Keeps repo repr name i (fun _ v => F v) (Sync.gitResult call) w := by
  apply (keeps_read (.git call) (p := fun _ => True) hF hw hread fun _ _ _ _ => trivial).bind
  rintro r v ⟨hv, -⟩
  exact keeps_ofExcept hF hv fun _ _ _ hu => hu

theorem keeps_disabledHooksPath (hF : Stays repo i F) (hw : F w) :
    Sync.Keeps repo repr name i (fun _ v => F v) Sync.disabledHooksPath w := by
  apply (keeps_read .hooksPath (p := fun _ => True) hF hw (fun _ _ _ h => h) fun _ _ _ _ => trivial).bind
  rintro r v ⟨hv, -⟩
  exact keeps_ofExcept hF hv fun _ _ _ hu => hu

theorem keeps_validatePaths (hF : Stays repo i F) (hw : F w) :
    Sync.Keeps repo repr name i (fun _ v => F v) Sync.validateOperationalTeamPaths w := by
  apply (keeps_read .validatePaths (p := fun _ => True) hF hw (fun _ _ _ h => h) fun _ _ _ _ => trivial).bind
  rintro r v ⟨hv, -⟩
  exact keeps_ofExcept hF hv fun _ _ _ hu => hu

theorem keeps_validateHead (hF : Stays repo i F) (hw : F w) :
    Sync.Keeps repo repr name i (fun _ v => F v) Sync.validateHead w := by
  apply (keeps_read .headCheck (p := fun _ => True) hF hw (fun _ _ _ h => h) fun _ _ _ _ => trivial).bind
  rintro r v ⟨hv, -⟩
  exact keeps_ofExcept hF hv fun _ _ _ hu => hu

theorem keeps_activeTeamPathspecs (hF : Stays repo i F) (hw : F w) :
    Sync.Keeps repo repr name i (fun _ v => F v) Sync.activeTeamPathspecs w := by
  apply (keeps_read .activePathspecs (p := fun _ => True) hF hw (fun _ _ _ h => h) fun _ _ _ _ => trivial).bind
  rintro r v ⟨hv, -⟩
  exact keeps_ofExcept hF hv fun _ _ _ hu => hu

/-! ## Reading heads -/

theorem keeps_hasRemote (hF : Stays repo i F) (hw : F w) :
    Sync.Keeps repo repr name i (fun there v => F v ∧ there = true) Sync.hasRemote w := by
  have hraw : Sync.Keeps repo repr name i (fun raw v => F v ∧ Reads raw name) (Sync.gitChecked .remotes) w := by
    apply (keeps_read (.git .remotes)
      (p := fun r : Except PyExc Completed => ∀ c, r = .ok c → c.returncode = 0 → idLine name <+: c.stdout)
      hF hw (fun _ _ _ h => h.1) fun _ _ _ h => h.2).bind
    rintro r v ⟨hv, hprinted⟩
    exact keeps_ofExcept hF hv fun raw hraw u hu => ⟨hu, gitChecked_reads hraw hprinted⟩
  apply hraw.bind
  rintro raw v ⟨hv, hreads⟩
  exact keeps_return hF hv fun u hu => ⟨hu, decide_eq_true hreads.not_blank⟩

theorem keeps_configuredUpstream (hF : Stays repo i F) (hw : F w) :
    Sync.Keeps repo repr name i (fun _ v => F v) (Sync.configuredUpstream repr) w := by
  unfold Sync.configuredUpstream
  apply (keeps_result .symbolicRef hF hw fun _ _ _ h => h).bind
  intro branch v hv
  dsimp only
  split
  · exact keeps_raise
  apply (keeps_result (.configAll _) hF hv fun _ _ _ h => h).bind
  intro remoteResult v hv
  apply (keeps_result (.configAll _) hF hv fun _ _ _ h => h).bind
  intro mergeResult v hv
  split
  · apply (keeps_text .remotes hF hv fun _ _ _ h => h.1).bind
    intro configured v hv
    split
    · exact keeps_raise
    apply (keeps_result (.checkRefFormat _) hF hv fun _ _ _ h => h).bind
    intro refCheck v hv
    split
    · exact keeps_raise
    · exact keeps_return hF hv fun _ hu => hu
  · exact keeps_raise

theorem keeps_revParseHead {h o : Token} (hw : At repo i h o w) :
    Sync.Keeps repo repr name i (fun raw v => Reads raw h ∧ At repo i h o v) (Sync.gitChecked .revParseHead) w := by
  apply (keeps_read (.git .revParseHead)
    (p := fun r : Except PyExc Completed => ∀ c, r = .ok c → c.returncode = 0 → idLine h <+: c.stdout)
    (at_stays h o) hw (fun _ _ _ hread => hread.1) fun v hv r hread => hv.head ▸ hread.2).bind
  rintro r v ⟨hv, hprinted⟩
  exact keeps_ofExcept (at_stays h o) hv fun raw hraw u hu => ⟨gitChecked_reads hraw hprinted, hu⟩

theorem readCompleted_ok {answer : Except PyExc Completed} {printed : Sync.Printed}
    (h : Sync.readCompleted answer = .ok printed) : ∃ r, answer = .ok r ∧ r.returncode = printed.returncode := by
  unfold Sync.readCompleted at h
  simp only [bind_ok, pure_ok] at h
  obtain ⟨r, hr, _, _, _, _, rfl⟩ := h
  exact ⟨r, hr, rfl⟩

/-- A zero code names two commits, one in the history of the other. -/
theorem keeps_isAncestor {older newer : PyStr} (hF : Stays repo i F) (hw : F w) :
    Sync.Keeps repo repr name i (fun yes v => F v ∧ (yes = true → ∃ a b : Token, older = a.text ∧ newer = b.text ∧
      Descends repo b a)) (Sync.isAncestor older newer) w := by
  have hresult : Sync.Keeps repo repr name i (fun r v => F v ∧ (r.returncode = 0 → ∃ a b : Token, older = a.text ∧
      newer = b.text ∧ Descends repo b a)) (Sync.gitResult (.mergeBase older newer)) w := by
    apply (keeps_read (.git (.mergeBase older newer))
      (p := fun r : Except PyExc Completed => Succeeded r → ∃ a b : Token, older = a.text ∧
        newer = b.text ∧ Descends repo b a) hF hw (fun _ _ _ h => h.1) fun _ _ _ h => h.2).bind
    rintro answer v ⟨hv, hnames⟩
    refine keeps_ofExcept hF hv fun printed hread u hu => ⟨hu, fun hcode => hnames ?_⟩
    obtain ⟨r, hr, hsame⟩ := readCompleted_ok hread
    exact ⟨r, hr, hsame.trans hcode⟩
  apply hresult.bind
  rintro r v ⟨hv, hnames⟩
  split
  · exact keeps_raise
  · exact keeps_return hF hv fun u hu => ⟨hu, fun hyes => hnames (of_decide_eq_true hyes)⟩

theorem keeps_rangeIsTeamOnly {older newer : PyStr} (hF : Stays repo i F) (hw : F w) :
    Sync.Keeps repo repr name i (fun _ v => F v ∧ ∀ a b : Token, older = a.text → newer = b.text →
      ∀ c ∈ repo.range a b, Cleared repo c) (Sync.rangeIsTeamOnly older newer) w := by
  apply (keeps_read (.rangeCheck older newer)
    (p := fun r : Except PyExc Unit => r = .ok () → ∀ a b : Token, older = a.text → newer = b.text →
      ∀ c ∈ repo.range a b, Cleared repo c) hF hw (fun _ _ _ h => h.1) ?_).bind
  · rintro answer v ⟨hv, hcleared⟩
    exact keeps_ofExcept hF hv fun _ ha u hu => ⟨hu, hcleared ha⟩
  · rintro v - r ⟨-, git, rfl, hdocumented⟩ hok a b rfl rfl c hc
    obtain ⟨listing, hgit⟩ := hdocumented a b rfl rfl
    exact cleared_of_range hgit hok hc

/-! ## Fetching -/

theorem keeps_tryFinally {x : Sync α} {cleanup : Sync PyStr} (hx : Sync.Keeps repo repr name i q x w)
    (hcleanup : ∀ v, Sync.Keeps repo repr name i (fun _ _ => True) cleanup v)
    (hok : ∀ a v, q a v → Sync.Keeps repo repr name i (fun _ u => q a u) cleanup v)
    (hq : ∀ a, Stays repo i (q a)) : Sync.Keeps repo repr name i q (Sync.tryFinally x cleanup) w := by
  apply Program.Keeps.bind hx
  intro outcome v houtcome
  cases outcome with
  | error e =>
    apply Program.Keeps.bind (hcleanup v)
    rintro (e' | note) u -
    all_goals
      apply Program.keeps_done
      intro _ _ a ha
      cases ha
  | ok a =>
    apply Program.Keeps.bind (hok a v (houtcome a rfl))
    rintro (e' | note) u hu
    · apply Program.keeps_done
      intro _ _ b hb
      cases hb
    · apply Program.keeps_done
      intro u' hu' b hb
      obtain rfl := Except.ok.inj hb
      exact hq a u u' (hu note rfl) hu'

/-- Setting a temporary ref leaves heads and the remote alone. -/
theorem moves_setTemporary (v : TeamWorld ι) (ref : PyStr) (c : Option Token) :
    SyncMoves repo i v (v.setTemporary i ref c) := by
  refine ⟨fun j hj => ⟨rfl, ?_⟩, Or.inl rfl, Or.inl rfl⟩
  exact Function.update_of_ne hj _ _

theorem keeps_fetchUnlocked {remote mergeRef : PyStr} {h o : Token} (hw : At repo i h o w) :
    Sync.Keeps repo repr name i (fun p v => ∃ u, Reads p.2 u ∧ Descends repo u o ∧ At repo i h u v)
      (Sync.fetchUnlocked remote mergeRef) w := by
  unfold Sync.fetchUnlocked
  apply (keeps_read .hex (p := fun _ => True) (at_stays h o) hw (fun _ _ _ hread => hread)
    fun _ _ _ _ => trivial).bind
  rintro (hex : PyStr) v ⟨hv, -⟩
  apply (keeps_disabledHooksPath (at_stays h o) hv).bind
  intro hooksPath v hv
  -- What was fetched stays under the ref, and the remote keeps it.
  have hstored : ∀ u ref, Stays repo i fun v : TeamWorld ι =>
      At repo i h u v ∧ v.temporary i ref = some u := by
    intro u ref v v' ⟨hat, htemporary⟩ hrely
    refine ⟨at_stays h u v v' hat hrely, ?_⟩
    rw [hrely.temporary, htemporary]
  generalize (lit "refs/raven-automatic-sync/" ++ hex : PyStr) = ref
  have hfetch : Sync.Keeps repo repr name i (fun _ v => ∃ u, Descends repo u o ∧ At repo i h u v ∧
      v.temporary i ref = some u) (Sync.gitChecked (.fetch hooksPath remote mergeRef ref)) v := by
    have hask : Sync.Keeps repo repr name i (fun r v => Succeeded r → ∃ u, Descends repo u o ∧ At repo i h u v ∧
        v.temporary i ref = some u) (Sync.ask (.git (.fetch hooksPath remote mergeRef ref))) v := by
      apply keeps_ask (at_stays h o) hv
      · rintro r v v' hr hrely hok
        obtain ⟨u, hu, hat, htemporary⟩ := hr hok
        obtain ⟨hat', htemporary'⟩ := hstored u ref v v' ⟨hat, htemporary⟩ hrely
        exact ⟨u, hu, hat', htemporary'⟩
      · rintro v hv r u ⟨hmoved, hok⟩
        constructor
        · rcases hmoved with rfl | rfl
          · exact .refl repo i _
          · exact moves_setTemporary v ref _
        · intro hsucceeded
          obtain rfl := hok hsucceeded
          refine ⟨v.remote, hv.remote, ⟨hv.head, .refl⟩, ?_⟩
          unfold TeamWorld.setTemporary
          dsimp only
          rw [Function.update_self, Function.update_self]
    apply hask.bind
    intro r v hr
    apply Program.keeps_done
    intro v' hrely raw hraw
    obtain ⟨c, _, _, hc, hcode, -⟩ := gitChecked_ok hraw
    obtain ⟨u, hu, hat, htemporary⟩ := hr ⟨c, hc, hcode⟩
    obtain ⟨hat', htemporary'⟩ := hstored u ref v v' ⟨hat, htemporary⟩ hrely
    exact ⟨u, hu, hat', htemporary'⟩
  apply hfetch.bind
  rintro output v ⟨u, hu, hat, htemporary⟩
  have hdelete : ∀ (F : TeamWorld ι → Prop), Stays repo i F → (∀ v c, F v → F (v.setTemporary i ref c)) → ∀ v, F v →
      Sync.Keeps repo repr name i (fun _ v => F v) (do
        let hooksPath ← Sync.disabledHooksPath
        Sync.gitChecked (.deleteRef hooksPath ref)) v := by
    intro F hF hset v hv
    apply (keeps_disabledHooksPath hF hv).bind
    intro hooksPath v hv
    have hask : Sync.Keeps repo repr name i (fun _ v => F v) (Sync.ask (.git (.deleteRef hooksPath ref))) v := by
      apply keeps_ask hF hv (fun _ => hF)
      rintro v hv r u (rfl | rfl)
      · exact ⟨.refl repo i _, hv⟩
      · exact ⟨moves_setTemporary v ref none, hset v none hv⟩
    apply hask.bind
    intro r v hv
    exact keeps_ofExcept hF hv fun _ _ _ hu => hu
  have hread : Sync.Keeps repo repr name i (fun raw v => Reads raw u ∧ At repo i h u v)
      (Sync.gitChecked (.revParseTemporary ref)) v := by
    apply (keeps_read (.git (.revParseTemporary ref))
      (p := fun r : Except PyExc Completed => ∀ c, r = .ok c → c.returncode = 0 → idLine u <+: c.stdout)
      (hstored u ref) ⟨hat, htemporary⟩ (fun _ _ _ h => h.1) ?_).bind
    · rintro r v ⟨⟨hv, -⟩, hprinted⟩
      exact keeps_ofExcept (at_stays h u) hv fun raw hraw _ hu => ⟨gitChecked_reads hraw hprinted, hu⟩
    · rintro v ⟨-, hstoredHere⟩ r ⟨-, hprinted⟩ c hc hcode
      obtain ⟨d, hd, hline⟩ := hprinted c hc hcode
      obtain rfl : u = d := Option.some.inj (hstoredHere.symm.trans hd)
      exact hline
  have hclean := keeps_tryFinally hread
    (fun v => hdelete (fun _ => True) (fun _ _ _ _ => trivial) (fun _ _ _ => trivial) v trivial)
    (fun raw v hv => hdelete (fun v => Reads raw u ∧ At repo i h u v)
      (fun w v hw hrely => ⟨hw.1, at_stays h u w v hw.2 hrely⟩) (fun v c hv => ⟨hv.1, hv.2.head, hv.2.remote⟩) v hv)
    (fun raw w v hw hrely => ⟨hw.1, at_stays h u w v hw.2 hrely⟩)
  apply hclean.bind
  rintro raw v ⟨hreads, hv⟩
  exact keeps_return (at_stays h u) hv fun v' hv' => ⟨u, hreads, hu, hv'⟩

end

end Rdap.Memory
