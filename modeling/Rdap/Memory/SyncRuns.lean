import Rdap.Memory.SyncKeeps

/-!
# Nodes that share a branch

Any number of nodes pull, commit and push, their commands interleaved, cut off and failing at will, and
people commit where no node is at work and push what extends the branch. The branch and every head only
move forward, and what a node lets in or out has passed the check.
-/

set_option autoImplicit false

namespace Rdap.Memory
open Python Lib Identity

variable {ι : Type} [DecidableEq ι] {repo : Repository} {repr : PyStr → PyStr} {name : Token} {i : ι}
  {w : TeamWorld ι} {h o u : Token}

/-! ## Moving forward -/

theorem setHead_self (v : TeamWorld ι) (c : Token) : (v.setHead i c).head i = c := Function.update_self _ _ _

theorem setHead_other {v : TeamWorld ι} {c : Token} {j : ι} (hj : j ≠ i) : (v.setHead i c).head j = v.head j :=
  Function.update_of_ne hj _ _

/-- A token that spells the output is the one that was read. -/
theorem Reads.of_text {raw : PyStr} {a b : Token} (ha : Reads raw a) (hb : raw = b.text) : a = b := by
  rw [hb] at ha
  exact ha.unique (reads_text b)

/-- A checked fast-forward to what the remote has had. -/
theorem keeps_merge {hooksPath target : PyStr} (hw : At repo i h u w) (hreads : Reads target u)
    (hcleared : ∀ c ∈ repo.range h u, Cleared repo c) :
    Sync.Keeps repo repr name i (fun _ v => ∃ h', At repo i h' u v ∧ Descends repo h' u)
      (Sync.gitChecked (.merge hooksPath target)) w := by
  have hask : Sync.Keeps repo repr name i (fun r v => ∃ h', At repo i h' u v ∧ (Succeeded r → Descends repo h' u))
      (Sync.ask (.git (.merge hooksPath target))) w := by
    apply keeps_ask (at_stays h u) hw
    · rintro r v v' ⟨h', hat, hdescends⟩ hrely
      exact ⟨h', at_stays h' u v v' hat hrely, hdescends⟩
    · rintro v hv r v' ⟨hmoved, hok⟩
      have hnewer : Succeeded r → Descends repo (v'.head i) u := by
        intro hsucceeded
        obtain ⟨c, hc, hdescends⟩ := hok hsucceeded
        rwa [hreads.of_text hc]
      rcases hmoved with rfl | ⟨c, hc, hforward, rfl⟩
      · exact ⟨.refl repo i _, v'.head i, ⟨rfl, hv.remote⟩, hnewer⟩
      · obtain rfl := hreads.of_text hc
        refine ⟨⟨?_, Or.inl rfl, Or.inr (Or.inr ?_)⟩, _, ⟨rfl, hv.remote⟩, hnewer⟩
        · exact fun j hj => ⟨setHead_other hj, rfl⟩
        · rw [setHead_self, hv.head]
          exact ⟨hv.remote, hv.head ▸ hforward, hcleared⟩
  apply hask.bind
  rintro r v ⟨h', hat, hdescends⟩
  refine keeps_ofExcept (at_stays h' u) hat fun raw hraw v' hv' => ?_
  obtain ⟨c, _, _, hc, hcode, -⟩ := gitChecked_ok hraw
  exact ⟨h', hv', hdescends ⟨c, hc, hcode⟩⟩

theorem keeps_fastForward {fetched head upstreamHead : PyStr} (hw : At repo i h u w) (hhead : Reads head h)
    (hupstream : Reads upstreamHead u) :
    Sync.Keeps repo repr name i (fun _ v => ∃ h', At repo i h' u v ∧ Descends repo h' u)
      (Sync.fastForward fetched head upstreamHead) w := by
  unfold Sync.fastForward
  split
  · rename_i hsame
    obtain rfl := (hsame ▸ hhead).unique hupstream
    exact keeps_return (at_stays h h) hw fun v hv => ⟨h, hv, .refl⟩
  apply (keeps_isAncestor (at_stays h u) hw).bind
  rintro behind v ⟨hv, hbehind⟩
  split
  · rename_i hyes
    obtain ⟨a, b, ha, hb, -⟩ := hbehind hyes
    obtain rfl := hhead.of_text ha
    obtain rfl := hupstream.of_text hb
    apply (keeps_rangeIsTeamOnly (at_stays h u) hv).bind
    rintro _ v ⟨hv, hcleared⟩
    apply (keeps_disabledHooksPath (at_stays h u) hv).bind
    intro hooksPath v hv
    apply (keeps_merge hv hupstream (hcleared h u ha hb)).bind
    rintro merged v ⟨h', hv, hdescends⟩
    apply (keeps_validatePaths (at_stays h' u) hv).bind
    intro _ v hv
    exact keeps_return (at_stays h' u) hv fun v hv => ⟨h', hv, hdescends⟩
  · apply (keeps_isAncestor (at_stays h u) hv).bind
    rintro ahead v ⟨hv, hahead⟩
    split
    · rename_i hyes
      obtain ⟨a, b, ha, hb, hdescends⟩ := hahead hyes
      obtain rfl := hupstream.of_text ha
      obtain rfl := hhead.of_text hb
      exact keeps_return (at_stays h u) hv fun v hv => ⟨h, hv, hdescends⟩
    · exact keeps_raise

/-- After a pull that returns, the head has all that the remote had before it. -/
theorem keeps_pull (hw : At repo i h o w) :
    Sync.Keeps repo repr name i (fun _ v => ∃ h', At repo i h' o v ∧ Descends repo h' o)
      (Sync.pullTeamFfOnlyUnlocked repr) w := by
  unfold Sync.pullTeamFfOnlyUnlocked
  apply (keeps_hasRemote (at_stays h o) hw).bind
  rintro there v ⟨hv, rfl⟩
  rw [if_pos rfl]
  apply (keeps_configuredUpstream (at_stays h o) hv).bind
  rintro ⟨remote, mergeRef⟩ v hv
  apply (keeps_fetchUnlocked hv).bind
  rintro ⟨fetched, upstreamHead⟩ v ⟨u, hupstream, hnewer, hv⟩
  apply (keeps_revParseHead hv).bind
  rintro head v ⟨hhead, hv⟩
  apply (keeps_fastForward hv hhead hupstream).mono
  rintro _ v ⟨h', hat, hdescends⟩
  exact ⟨h', ⟨hat.head, hat.remote.trans hnewer⟩, hdescends.trans hnewer⟩

/-! ## Pushing -/

/-- What is pushed onto a newer remote was checked against the older one. -/
theorem range_mono {newer older c : Token} (hforward : Descends repo newer older) (hc : c ∈ repo.range newer h) :
    c ∈ repo.range older h :=
  ⟨hc.1, fun hold => hc.2 (hforward.trans hold)⟩

theorem keeps_push {hooksPath remote mergeRef : PyStr} (hw : At repo i h u w)
    (hcleared : ∀ c ∈ repo.range u h, Cleared repo c) :
    Sync.Keeps repo repr name i (fun _ v => At repo i h h v) (Sync.gitChecked (.push hooksPath remote mergeRef))
      w := by
  have hask : Sync.Keeps repo repr name i (fun r v => Succeeded r → At repo i h h v)
      (Sync.ask (.git (.push hooksPath remote mergeRef))) w := by
    apply keeps_ask (at_stays h u) hw
    · exact fun r v v' hr hrely hsucceeded => at_stays h h v v' (hr hsucceeded) hrely
    · rintro v hv r v' ⟨hmoved, hok⟩
      have hsame : v'.head i = h := by
        rcases hmoved with rfl | ⟨-, rfl⟩ <;> exact hv.head
      refine ⟨?_, fun hsucceeded => ⟨hsame, ?_⟩⟩
      · rcases hmoved with rfl | ⟨hforward, rfl⟩
        · exact .refl repo i _
        · refine ⟨fun _ _ => ⟨rfl, rfl⟩, Or.inr ⟨rfl, hforward, ?_⟩, Or.inl rfl⟩
          rw [hv.head]
          exact fun c hc => hcleared c (range_mono hv.remote hc)
      · rw [hok hsucceeded, hv.head]
  apply hask.bind
  intro r v hr
  apply Program.keeps_done
  intro v' hrely raw hraw
  obtain ⟨c, _, _, hc, hcode, -⟩ := gitChecked_ok hraw
  exact at_stays h h v v' (hr ⟨c, hc, hcode⟩) hrely

theorem keeps_pushForward {remote mergeRef head upstreamHead : PyStr} (hw : At repo i h u w) (hhead : Reads head h)
    (hupstream : Reads upstreamHead u) :
    Sync.Keeps repo repr name i (fun _ v => At repo i h h v) (Sync.pushForward remote mergeRef head upstreamHead)
      w := by
  unfold Sync.pushForward
  split
  · rename_i hsame
    obtain rfl := (hsame ▸ hhead).unique hupstream
    exact keeps_return (at_stays h h) hw fun v hv => hv
  apply (keeps_isAncestor (at_stays h u) hw).bind
  rintro ahead v ⟨hv, hahead⟩
  split
  · rename_i hyes
    obtain ⟨a, b, ha, hb, -⟩ := hahead hyes
    obtain rfl := hupstream.of_text ha
    obtain rfl := hhead.of_text hb
    apply (keeps_rangeIsTeamOnly (at_stays h u) hv).bind
    rintro _ v ⟨hv, hcleared⟩
    apply (keeps_disabledHooksPath (at_stays h u) hv).bind
    intro hooksPath v hv
    exact keeps_push hv (hcleared u h ha hb)
  · exact keeps_raise

/-- After a push that returns, the remote has the head. -/
theorem keeps_pushTeam (hw : At repo i h o w) :
    Sync.Keeps repo repr name i (fun _ v => At repo i h h v) (Sync.pushTeamUnlocked repr) w := by
  unfold Sync.pushTeamUnlocked
  apply (keeps_hasRemote (at_stays h o) hw).bind
  rintro there v ⟨hv, rfl⟩
  rw [if_pos rfl]
  apply (keeps_configuredUpstream (at_stays h o) hv).bind
  rintro ⟨remote, mergeRef⟩ v hv
  apply (keeps_fetchUnlocked hv).bind
  rintro ⟨fetched, upstreamHead⟩ v ⟨u, hupstream, -, hv⟩
  apply (keeps_revParseHead hv).bind
  rintro head v ⟨hhead, hv⟩
  exact keeps_pushForward hv hhead hupstream

/-! ## Committing -/

theorem keeps_commit {hooksPath message : PyStr} {active : List PyStr} (hw : At repo i h o w) :
    Sync.Keeps repo repr name i (fun _ v => ∃ h', At repo i h' o v ∧ Descends repo h' h)
      (Sync.gitChecked (.commit hooksPath message active)) w := by
  have hask : Sync.Keeps repo repr name i (fun _ v => ∃ h', At repo i h' o v ∧ Descends repo h' h)
      (Sync.ask (.git (.commit hooksPath message active))) w := by
    apply keeps_ask (at_stays h o) hw
    · rintro r v v' ⟨h', hat, hdescends⟩ hrely
      exact ⟨h', at_stays h' o v v' hat hrely, hdescends⟩
    · rintro v hv r v' (rfl | ⟨c, hparent, rfl⟩)
      · exact ⟨.refl repo i _, h, hv, .refl⟩
      · refine ⟨⟨fun j hj => ⟨setHead_other hj, rfl⟩, Or.inl rfl, Or.inr (Or.inl ?_)⟩, c,
          ⟨setHead_self v c, hv.remote⟩, ?_⟩
        · rw [setHead_self]
          exact hparent
        · apply Relation.ReflTransGen.single
          show h ∈ repo.parents c
          rw [hparent, hv.head]
          exact List.mem_singleton_self h
  apply hask.bind
  rintro r v ⟨h', hat, hdescends⟩
  exact keeps_ofExcept (at_stays h' o) hat fun _ _ v hv => ⟨h', hv, hdescends⟩

theorem keeps_commitTeam {message : PyStr} (hw : At repo i h o w) :
    Sync.Keeps repo repr name i (fun _ v => ∃ h', At repo i h' o v ∧ Descends repo h' h)
      (Sync.commitTeamUnlocked message) w := by
  have hnothing : ∀ (note : PyStr) (v : TeamWorld ι), At repo i h o v →
      Sync.Keeps repo repr name i (fun _ v => ∃ h', At repo i h' o v ∧ Descends repo h' h) (pure note) v :=
    fun note v hv => keeps_return (at_stays h o) hv fun v hv => ⟨h, hv, .refl⟩
  unfold Sync.commitTeamUnlocked
  apply (keeps_activeTeamPathspecs (at_stays h o) hw).bind
  intro active v hv
  split
  · exact hnothing _ v hv
  apply (keeps_text (.status active) (at_stays h o) hv fun _ _ _ heffect => heffect).bind
  intro status v hv
  split
  · exact hnothing _ v hv
  apply (keeps_text (.add active) (at_stays h o) hv fun _ _ _ heffect => heffect).bind
  intro _ v hv
  apply (keeps_result (.stagedDiff active) (at_stays h o) hv fun _ _ _ heffect => heffect).bind
  intro staged v hv
  split
  · exact hnothing _ v hv
  split
  · exact keeps_raise
  apply (keeps_disabledHooksPath (at_stays h o) hv).bind
  intro hooksPath v hv
  apply (keeps_commit hv).bind
  rintro out v ⟨h', hv, hdescends⟩
  apply (keeps_validateHead (at_stays h' o) hv).bind
  intro _ v hv
  apply (keeps_validatePaths (at_stays h' o) hv).bind
  intro _ v hv
  exact keeps_return (at_stays h' o) hv fun v hv => ⟨h', hv, hdescends⟩

/-! ## The three calls -/

/-- What a call has come to, told from the world it has started in. -/
def Arrived (repo : Repository) (i : ι) (start : TeamWorld ι) : Sync.Outcome → TeamWorld ι → Prop
  | .pulled _, v => Descends repo (v.head i) start.remote
  | .committed _, _ => True
  | .shared _, v => Descends repo (v.head i) start.remote ∧ Descends repo v.remote (v.head i)

theorem keeps_pullTeam (w : TeamWorld ι) :
    Sync.Keeps repo repr name i (Arrived repo i w) (Sync.pullTeam repr) w := by
  unfold Sync.pullTeam
  apply (keeps_validatePaths (at_stays _ _) (at_self w)).bind
  intro _ v hv
  apply (keeps_pull hv).bind
  rintro note v ⟨h', hv, hdescends⟩
  refine keeps_return (at_stays _ _) hv fun v hv => ?_
  exact (congrArg (Descends repo · w.remote) hv.head).mpr hdescends

theorem keeps_commitTeamCall {message : PyStr} (w : TeamWorld ι) :
    Sync.Keeps repo repr name i (Arrived repo i w) (Sync.commitTeam message) w := by
  unfold Sync.commitTeam
  apply (keeps_validatePaths (at_stays _ _) (at_self w)).bind
  intro _ v hv
  apply (keeps_commitTeam hv).bind
  rintro note v ⟨h', hv, -⟩
  exact keeps_return (at_stays _ _) hv fun _ _ => trivial

theorem keeps_commitPush {message : PyStr} (w : TeamWorld ι) :
    Sync.Keeps repo repr name i (Arrived repo i w) (Sync.commitPush repr message) w := by
  unfold Sync.commitPush
  apply (keeps_validatePaths (at_stays _ _) (at_self w)).bind
  intro _ v hv
  apply (keeps_hasRemote (at_stays _ _) hv).bind
  rintro there v ⟨hv, rfl⟩
  unfold Sync.ifRemote
  rw [if_pos rfl]
  apply (keeps_pull hv).bind
  rintro pulled v ⟨h', hv, hpulled⟩
  apply (keeps_commitTeam hv).bind
  rintro committed v ⟨h'', hv, hcommitted⟩
  apply (keeps_hasRemote (at_stays _ _) hv).bind
  rintro there v ⟨hv, rfl⟩
  rw [if_pos rfl]
  apply (keeps_pushTeam hv).bind
  intro pushed v hv
  refine keeps_return (at_stays _ _) hv fun v hv => ⟨?_, ?_⟩
  · exact (congrArg (Descends repo · w.remote) hv.head).mpr (hcommitted.trans hpulled)
  · exact (congrArg (Descends repo v.remote ·) hv.head).mpr hv.remote

/-! ## All nodes -/

variable (repo repr name)

abbrev SyncSite (ι : Type) := Parallel.Site (TeamWorld ι) SyncCall ι SyncCall.Answer (Except PyExc Sync.Outcome)

/-- The calls that a node makes, each of them under its lock. -/
def IsSync (_ : ι) (p : Program SyncCall SyncCall.Answer (Except PyExc Sync.Outcome)) : Prop :=
  p = (Sync.pullTeam repr).run ∨ ∃ message, p = (Sync.commitTeam message).run ∨ p = (Sync.commitPush repr message).run

/-- What people do by hand: anything with the heads and refs of nodes where nothing runs, and with the branch
whatever extends it. -/
structure ByHand (s : SyncSite ι) (u : TeamWorld ι) : Prop where
  idle : ∀ i t, s.tasks i = some t → u.head i = s.world.head i ∧ u.temporary i = s.world.temporary i
  remote : Descends repo u.remote s.world.remote

/-- The same, but for the branch. -/
structure ByHandAtHome (s : SyncSite ι) (u : TeamWorld ι) : Prop where
  byHand : ByHand repo s u
  remote : u.remote = s.world.remote

abbrev SyncRun (outside : SyncSite ι → TeamWorld ι → Prop) : SyncSite ι → SyncSite ι → Prop :=
  Parallel.Run (syncContract repo repr name) (IsSync repr) outside

/-- A call leaves its node's head where it was or further on, and comes to what it answers. -/
def SyncPost (i : ι) (start : TeamWorld ι) (result : Except PyExc Sync.Outcome) (v : TeamWorld ι) : Prop :=
  OnOk (Arrived repo i start) result v ∧ Descends repo (v.head i) (start.head i)

variable {repo repr name}

omit [DecidableEq ι] in
theorem SyncMoves.relies {j : ι} {w u : TeamWorld ι} (hmoves : SyncMoves repo i w u) (hj : i ≠ j) :
    SyncRelies repo j w u := by
  obtain ⟨hhead, htemporary⟩ := hmoves.others j (Ne.symm hj)
  refine ⟨hhead, htemporary, ?_⟩
  rcases hmoves.remote with hsame | ⟨hsame, hforward, -⟩
  · rw [hsame]
  · rw [hsame]
    exact hforward

omit [DecidableEq ι] in
theorem SyncMoves.forward {w u : TeamWorld ι} (hmoves : SyncMoves repo i w u) :
    Descends repo (u.head i) (w.head i) := by
  rcases hmoves.head with hsame | hparent | ⟨-, hforward, -⟩
  · rw [hsame]
  · apply Relation.ReflTransGen.single
    show w.head i ∈ repo.parents (u.head i)
    rw [hparent]
    exact List.mem_singleton_self _
  · exact hforward

theorem keeps_sync {p : Program SyncCall SyncCall.Answer (Except PyExc Sync.Outcome)} (hp : IsSync repr i p)
    (w : TeamWorld ι) : p.Keeps (syncContract repo repr name i) (SyncPost repo i w) w := by
  apply Program.Keeps.along (Q := fun w v : TeamWorld ι => Descends repo (v.head i) (w.head i))
  · exact fun _ => .refl
  · exact fun h g => g.trans h
  · intro w v hrely
    rw [hrely.head]
  · exact fun w v hmoves => hmoves.forward
  · rcases hp with rfl | ⟨message, rfl | rfl⟩
    · exact keeps_pullTeam w
    · exact keeps_commitTeamCall w
    · exact keeps_commitPush w

theorem sync_compatible {outside : SyncSite ι → TeamWorld ι → Prop} (h : ∀ s u, outside s u → ByHand repo s u) :
    Parallel.Compatible (syncContract repo repr name) (IsSync repr) outside (SyncPost repo) where
  peers _ _ hij _ _ hmoves := hmoves.relies hij
  starts _ _ hp w := keeps_sync hp w
  outside s u i t hout ht := ⟨((h s u hout).idle i t ht).1, ((h s u hout).idle i t ht).2, (h s u hout).remote⟩

theorem sound_idle {s : SyncSite ι} (hidle : ∀ i, s.tasks i = none) :
    Parallel.Sound (syncContract repo repr name) (SyncPost repo) s := by
  intro i t ht
  rw [hidle i] at ht
  cases ht

/-- The branch has moved forward, by commits that were checked. -/
def CheckedForward (repo : Repository) (w u : TeamWorld ι) : Prop :=
  Descends repo u.remote w.remote ∧ ∀ c ∈ repo.range w.remote u.remote, Cleared repo c

omit [DecidableEq ι] in
theorem checkedForward_refl (w : TeamWorld ι) : CheckedForward repo w w :=
  ⟨.refl, fun _ hc => absurd hc.1 hc.2⟩

omit [DecidableEq ι] in
theorem CheckedForward.trans {u v w : TeamWorld ι} (h : CheckedForward repo u v) (g : CheckedForward repo v w) :
    CheckedForward repo u w := by
  refine ⟨g.1.trans h.1, fun c hc => ?_⟩
  by_cases hmiddle : Descends repo v.remote c
  · exact h.2 c ⟨hmiddle, hc.2⟩
  · exact g.2 c ⟨hc.1, hmiddle⟩

omit [DecidableEq ι] in
theorem SyncMoves.checkedForward {w u : TeamWorld ι} (hmoves : SyncMoves repo i w u) : CheckedForward repo w u := by
  rcases hmoves.remote with hsame | ⟨hsame, hforward, hcleared⟩
  · unfold CheckedForward
    rw [hsame]
    exact checkedForward_refl w
  · unfold CheckedForward
    rw [hsame]
    exact ⟨hforward, hcleared⟩

/-- In every run of any number of nodes, whatever fails or is cut off:
the branch moves forward only, so that nothing that was ever on it is lost;
every command of every node leaves the other nodes alone, pushes only checked commits, and moves its own head
only to a commit of its own on top of it or along checked commits to what the remote has had;
every call that ends has left its head where it was or further on, a pull or a push that returns has all the
remote had when it began, and the remote has all that was pushed;
and if people leave the branch alone, all that is new on it was checked. -/
theorem synchronised_runs (repo : Repository) (repr : PyStr → PyStr) (name : Token) (s t : SyncSite ι)
    (hidle : ∀ i, s.tasks i = none) (hrun : SyncRun repo repr name (ByHand repo) s t) :
    Descends repo t.world.remote s.world.remote ∧
    (∀ i call answer u,
      Parallel.Step (syncContract repo repr name) (IsSync repr) (ByHand repo) t (.act i call answer) u →
      SyncMoves repo i t.world u.world) ∧
    (∀ i start result, t.tasks i = some ⟨start, .done result⟩ →
      Descends repo (t.world.head i) (start.head i) ∧
        ∀ outcome, result = .ok outcome → Arrived repo i start outcome t.world) ∧
    ∀ s' t' : SyncSite ι, (∀ i, s'.tasks i = none) → SyncRun repo repr name (ByHandAtHome repo) s' t' →
      ∀ c ∈ repo.range s'.world.remote t'.world.remote, Cleared repo c := by
  have hcompatible : Parallel.Compatible (syncContract repo repr name) (IsSync repr) (ByHand repo) (SyncPost repo) :=
    sync_compatible fun (_ : SyncSite ι) _ hout => hout
  have hsound : Parallel.Sound (syncContract repo repr name) (SyncPost repo) s := sound_idle hidle
  refine ⟨?_, ?_, ?_, ?_⟩
  · apply Parallel.run_world (Q := fun w u : TeamWorld ι => Descends repo u.remote w.remote) (fun _ => .refl)
      (fun h g => g.trans h) hcompatible _ _ hsound hrun
    · exact fun i w u hmoves => hmoves.checkedForward.1
    · exact fun s u hout => hout.remote
  · intro i call answer u hstep
    exact Parallel.guaranteed hcompatible hsound hrun hstep
  · intro i start result hdone
    obtain ⟨harrived, hforward⟩ := Parallel.finished hcompatible hsound hrun hdone
    exact ⟨hforward, harrived⟩
  · intro s' t' hidle' hrun' c hc
    have hforward : CheckedForward repo s'.world t'.world := by
      have hathome : Parallel.Compatible (syncContract repo repr name) (IsSync repr) (ByHandAtHome repo)
          (SyncPost repo) := sync_compatible fun (_ : SyncSite ι) _ hout => hout.byHand
      apply Parallel.run_world checkedForward_refl CheckedForward.trans hathome _ _ (sound_idle hidle') hrun'
      · exact fun i w u hmoves => hmoves.checkedForward
      · intro s u hout
        unfold CheckedForward
        rw [hout.remote]
        exact checkedForward_refl s.world
    exact hforward.2 c hc

namespace SyncSample
open Sample

/-- The second commit of the sample adds the goal file. -/
def goalRepo : Repository := Sample.repo [blob goal]

theorem visible_origin : lit "origin" ≠ [] ∧
    ((lit "origin").all fun c => 33 ≤ c.val && c.val < 127) = true := by decide

def origin : Token := wordOf (lit "origin") visible_origin

def code (n : Int) : Except PyExc Completed := .ok ⟨n, [], []⟩
def printed (b : Bytes) : Except PyExc Completed := .ok ⟨0, b, []⟩

/-- Answers to the range check: the sample's for its range, none otherwise. -/
def reading (older newer : PyStr) : Git :=
  if older = a.text ∧ newer = b.text then Sample.git [(blob goal).line] [goal.bytes]
  else fun _ => gitError (lit "unknown revision")

def configured (key : PyStr) : Bytes :=
  if key = lit "branch.main.remote" then asciiBytes (lit "origin\n") else asciiBytes (lit "refs/heads/main\n")

/-- A clone whose commands all succeed where they can. -/
def respond (i : Bool) (w : TeamWorld Bool) : (call : SyncCall) → call.Answer × TeamWorld Bool
  | .git .remotes => (printed (idLine origin), w)
  | .git .symbolicRef => (printed (asciiBytes (lit "main\n")), w)
  | .git (.configAll key) => (printed (configured key), w)
  | .git (.checkRefFormat _) => (code 0, w)
  | .git (.fetch _ _ _ ref) => (code 0, w.setTemporary i ref (some w.remote))
  | .git (.revParseTemporary ref) =>
    (match w.temporary i ref with
      | some c => printed (idLine c)
      | none => code 128, w)
  | .git (.deleteRef _ ref) => (code 0, w.setTemporary i ref none)
  | .git .revParseHead => (printed (idLine (w.head i)), w)
  | .git (.mergeBase older newer) => (code (if older = a.text ∧ newer = b.text then 0 else 1), w)
  | .git (.merge _ target) =>
    if w.head i = a ∧ target = b.text then (code 0, w.setHead i b) else (code 1, w)
  | .git (.push _ _ _) =>
    if w.remote = a ∧ w.head i = b then (code 0, { w with remote := w.head i }) else (code 1, w)
  | .git (.status _) => (printed (asciiBytes (lit "M goal")), w)
  | .git (.add _) => (code 0, w)
  | .git (.stagedDiff _) => (code 1, w)
  | .git (.commit _ _ _) => if w.head i = a then (code 0, w.setHead i b) else (code 1, w)
  | .hooksPath => (.ok (lit "none"), w)
  | .validatePaths => (.ok (), w)
  | .activePathspecs => (.ok [lit ".team/GOAL.md"], w)
  | .headCheck => (.ok (), w)
  | .rangeCheck older newer => (rangeIsTeamOnly id (reading older newer) (older ++ lit ".." ++ newer), w)
  | .hex => (lit "0", w)

theorem b_descends : Descends goalRepo b a := by
  apply Relation.ReflTransGen.single
  show a ∈ if b = b then [a] else []
  rw [if_pos rfl]
  exact List.mem_singleton_self a

theorem code_succeeded {n : Int} (h : Succeeded (code n)) : n = 0 := by
  obtain ⟨r, hr, hcode⟩ := h
  obtain rfl := Except.ok.inj hr
  exact hcode

theorem reading_documented (older newer : Token) :
    ∃ listing, Documented (reading older.text newer.text) goalRepo older newer listing := by
  unfold reading
  split
  · rename_i h
    obtain rfl := token_ext h.1
    obtain rfl := token_ext h.2
    refine ⟨_, Sample.documented [goal] [goal] fun p => ?_⟩
    rw [List.mem_singleton]
    constructor
    · rintro rfl
      exact ⟨rfl, not_shared.2⟩
    · exact And.left
  · classical
    refine ⟨fun c => if c = b then [goal] else [], ?_, ?_, ?_, ?_⟩
    · intro r hr
      cases hr
    · intro c r hr
      cases hr
    · exact fun c p => (touches_iff [goal] c p).symm
    · intro c r hr
      cases hr

theorem printed_line (b : Bytes) : ∀ r, printed b = .ok r → r.returncode = 0 → r.stdout = b := by
  intro r hr _
  rw [← Except.ok.inj hr]

theorem git_effect (i : Bool) (w : TeamWorld Bool) (call : GitCall) :
    gitEffect goalRepo origin i w call (respond i w (.git call)).1 (respond i w (.git call)).2 := by
  cases call with
  | remotes => exact ⟨rfl, fun r hr hcode => by rw [printed_line _ r hr hcode]⟩
  | symbolicRef => rfl
  | configAll key => rfl
  | checkRefFormat ref => rfl
  | fetch hooksPath remote mergeRef ref => exact ⟨Or.inr rfl, fun _ => rfl⟩
  | revParseTemporary ref =>
    refine ⟨rfl, fun r hr hcode => ?_⟩
    unfold respond at hr
    dsimp only at hr
    split at hr
    · rename_i c hc
      exact ⟨c, hc, by rw [printed_line _ r hr hcode]⟩
    · rw [← Except.ok.inj hr] at hcode
      cases hcode
  | deleteRef hooksPath ref => exact Or.inr rfl
  | revParseHead => exact ⟨rfl, fun r hr hcode => by rw [printed_line _ r hr hcode]⟩
  | mergeBase older newer =>
    refine ⟨rfl, fun hsucceeded => ?_⟩
    have hzero := code_succeeded hsucceeded
    split at hzero
    · rename_i h
      exact ⟨a, b, h.1, h.2, b_descends⟩
    · cases hzero
  | merge hooksPath target =>
    unfold respond
    dsimp only
    split
    · rename_i h
      refine ⟨Or.inr ⟨b, h.2, ?_, rfl⟩, fun _ => ⟨b, h.2, ?_⟩⟩
      · rw [h.1]
        exact b_descends
      · rw [setHead_self]
    · refine ⟨Or.inl rfl, fun hsucceeded => ?_⟩
      cases code_succeeded hsucceeded
  | push hooksPath remote mergeRef =>
    unfold respond
    dsimp only
    split
    · rename_i h
      refine ⟨Or.inr ⟨?_, rfl⟩, fun _ => rfl⟩
      rw [h.1, h.2]
      exact b_descends
    · refine ⟨Or.inl rfl, fun hsucceeded => ?_⟩
      cases code_succeeded hsucceeded
  | status active => rfl
  | add active => rfl
  | stagedDiff active => rfl
  | commit hooksPath message active =>
    unfold respond
    dsimp only
    split
    · rename_i h
      refine Or.inr ⟨b, ?_, rfl⟩
      show (if b = b then [a] else []) = [w.head i]
      rw [if_pos rfl, h]
    · exact Or.inl rfl

theorem respond_effect (i : Bool) (w : TeamWorld Bool) (call : SyncCall) :
    syncEffect goalRepo id origin i w call (respond i w call).1 (respond i w call).2 := by
  cases call with
  | git call => exact git_effect i w call
  | hooksPath => rfl
  | validatePaths => rfl
  | activePathspecs => rfl
  | headCheck => rfl
  | rangeCheck older newer =>
    refine ⟨rfl, reading older newer, rfl, ?_⟩
    rintro c d rfl rfl
    exact reading_documented c d
  | hex => rfl

/-- The clones take their steps in this order, each while it can. -/
def play : List Bool → SyncSite Bool → SyncSite Bool
  | [], s => s
  | i :: turns, s =>
    match s.tasks i with
    | some ⟨start, .call call k⟩ =>
      play turns ⟨(respond i s.world call).2,
        Function.update s.tasks i (some ⟨start, k (respond i s.world call).1⟩)⟩
    | _ => play turns s

theorem play_run {s : SyncSite Bool} (turns : List Bool) (t : SyncSite Bool)
    (h : SyncRun goalRepo id origin (ByHand goalRepo) s t) :
    SyncRun goalRepo id origin (ByHand goalRepo) s (play turns t) := by
  induction turns generalizing t with
  | nil => exact h
  | cons i turns ih =>
    unfold play
    split
    · rename_i start call k htask
      exact ih _ (.step h (.act i start call k _ _ htask (respond_effect i t.world call)))
    · exact ih t h

/-- Two clones at the commit that the branch is at. -/
def clones : TeamWorld Bool := ⟨a, fun _ => a, fun _ _ => none⟩

def idle : SyncSite Bool := ⟨clones, fun _ => none⟩

/-- One clone shares, while the other pulls. -/
def begun : SyncSite Bool :=
  ⟨clones, Function.update (Function.update idle.tasks false
    (some ⟨clones, (Sync.commitPush id (lit "sync")).run⟩)) true (some ⟨clones, (Sync.pullTeam id).run⟩)⟩

theorem begun_run (turns : List Bool) :
    SyncRun goalRepo id origin (ByHand goalRepo) idle (play turns begun) := by
  apply play_run
  exact .step (.step .refl (.start false _ rfl (Or.inr ⟨lit "sync", Or.inr rfl⟩)))
    (.start true _ rfl (Or.inl rfl))

/-- They begin by turns. Before the second clone fetches, the first has pushed. -/
def turns : List Bool :=
  [false, true, false, true, false, true] ++ List.replicate 60 false ++ List.replicate 30 true

/-- Both have finished, and both have the new commit. -/
def isShared (s : SyncSite Bool) : Bool :=
  match s.tasks false, s.tasks true with
  | some ⟨_, .done (.ok (.shared _))⟩, some ⟨_, .done (.ok (.pulled _))⟩ =>
    s.world.remote = b ∧ s.world.head true = b
  | _, _ => false

theorem shared_of {s : SyncSite Bool} (h : isShared s = true) : ∃ start note start' note',
    s.tasks false = some ⟨start, .done (.ok (.shared note))⟩ ∧
      s.tasks true = some ⟨start', .done (.ok (.pulled note'))⟩ ∧
      s.world.remote = b ∧ s.world.head true = b := by
  unfold isShared at h
  split at h
  · rename_i start note start' note' hshared hpulled
    exact ⟨start, note, start', note', hshared, hpulled, of_decide_eq_true h⟩
  · cases h

theorem played_shared : isShared (play turns begun) = true := by
  decide +kernel

end SyncSample

theorem synchronised_runs_sample :
    ∃ (t : SyncSite Bool) (start start' : TeamWorld Bool) (note note' : PyStr),
      t.tasks false = some ⟨start, .done (.ok (.shared note))⟩ ∧
      t.tasks true = some ⟨start', .done (.ok (.pulled note'))⟩ ∧
      t.world.remote = Sample.b ∧ t.world.head true = Sample.b ∧
      Descends SyncSample.goalRepo t.world.remote SyncSample.clones.remote ∧
      Descends SyncSample.goalRepo t.world.remote (t.world.head false) ∧
      Descends SyncSample.goalRepo (t.world.head true) start'.remote := by
  obtain ⟨start, note, start', note', hshared, hpulled, hremote, hhead⟩ :=
    SyncSample.shared_of SyncSample.played_shared
  obtain ⟨hforward, -, hfinished, -⟩ := synchronised_runs SyncSample.goalRepo id SyncSample.origin SyncSample.idle
    (SyncSample.play SyncSample.turns SyncSample.begun) (fun _ => rfl) (SyncSample.begun_run SyncSample.turns)
  exact ⟨_, start, start', note, note', hshared, hpulled, hremote, hhead, hforward,
    ((hfinished false start _ hshared).2 _ rfl).2, (hfinished true start' _ hpulled).2 _ rfl⟩

end Rdap.Memory
