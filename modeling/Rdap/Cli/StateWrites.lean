import Rdap.Cli.Principal

/-!
# What a write changes

From the state that it read, each command makes one with its own change in it, and everything that the change does
not touch is as it was, up to `==`.
-/

set_option autoImplicit false

namespace Rdap.Cli
open Python Json Lib Identity Protocol

variable {P : Platform} {L : Letters}

/-- What stands at a place, up to `==`. -/
def Place.classIn (place : Place) (st : Dict) : Option PyClass := classAt (.dict st) place.path

structure Writes (P : Platform) (seen : Object) (new : Dict) (change : Change) : Prop where
  fields : ∀ field ∈ change.fields, field.1.classIn new = some (PyClass.mk field.2)
  others : ∀ place, ¬ change.Touches place → place.classIn new = place.classIn seen.rows
  bound : change.isBind = false → ∀ who key, Genuine P who key → BoundTo seen who →
    ∀ k ∈ bindKeys, ¬ change.Touches (.top k)

/-! ## Members of the state -/

def Place.head : Place → PyStr
  | .top key => key
  | .mate _ _ => lit "teammates"

theorem classIn_congr {a b : Dict} (place : Place)
    (h : (KeyedTable.ofRows a).get? place.head = (KeyedTable.ofRows b).get? place.head) :
    place.classIn a = place.classIn b := by
  cases place with
  | top key =>
    have hkey : (KeyedTable.ofRows a).get? key = (KeyedTable.ofRows b).get? key := h
    simp only [Place.classIn, classAt, Place.path, valueAt_key, hkey]
  | mate name key =>
    have hkey : (KeyedTable.ofRows a).get? (lit "teammates") = (KeyedTable.ofRows b).get? (lit "teammates") := h
    simp only [Place.classIn, classAt, Place.path, valueAt_key, hkey]

theorem classIn_top {st : Dict} {key : PyStr} {v : Value} (h : (KeyedTable.ofRows st).get? key = some v) :
    (Place.top key).classIn st = some (PyClass.mk v) := by
  simp only [Place.classIn, classAt, Place.path, valueAt_key, h, Option.bind_some, valueAt, Option.map_some]

/-- Some members are assigned to, and no others. -/
structure Assigns (seen : Object) (new items : Dict) : Prop where
  own : ∀ item ∈ items, (KeyedTable.ofRows new).get? item.1 = some item.2
  others : ∀ key, (∀ item ∈ items, item.1 ≠ key) → (KeyedTable.ofRows new).get? key = seen.get? key

theorem assigns_update (seen : Object) {items : Dict} (hnodup : (items.map Prod.fst).Nodup) :
    Assigns seen (dictUpdate seen.rows items) items where
  own _ hitem := get?_dictUpdate hnodup hitem _
  others key hkey := by
    rw [get?_dictUpdate_of_absent hkey, KeyedTable.ofRows_rows]

theorem Assigns.fields {seen : Object} {new items : Dict} (h : Assigns seen new items) :
    ∀ field ∈ items.map fun item => (Place.top item.1, item.2), field.1.classIn new = some (PyClass.mk field.2) := by
  intro field hfield
  obtain ⟨item, hitem, rfl⟩ := List.mem_map.mp hfield
  exact classIn_top (h.own item hitem)

theorem Assigns.same {seen : Object} {new items : Dict} (h : Assigns seen new items) (place : Place)
    (hkey : ∀ item ∈ items, item.1 ≠ place.head) : place.classIn new = place.classIn seen.rows := by
  apply classIn_congr
  rw [h.others _ hkey, KeyedTable.ofRows_rows]

/-! ## `cmd_raven_bind` -/

theorem writes_bound (seen : Object) (who : PublicWhoami) (source : PyStr) :
    Writes P seen (applyBind seen.rows who source) (.bound who source) := by
  have hassigns : Assigns seen (applyBind seen.rows who source) (bindFields who source) :=
    assigns_update seen (show bindKeys.Nodup by decide)
  refine ⟨hassigns.fields, ?_, fun hbind => by cases hbind⟩
  intro place htouches
  apply hassigns.same
  intro item hitem hkey
  have hmem : item.1 ∈ bindKeys := List.mem_map_of_mem (f := Prod.fst) hitem
  cases place with
  | top key => exact htouches ⟨item.1, hmem, congrArg Place.top hkey.symm⟩
  | mate name key =>
    have hteammates : lit "teammates" ∉ bindKeys := by decide
    rw [hkey] at hmem
    exact hteammates hmem

/-! ## `cmd_model` -/

theorem writes_selected {seen : Object} {new : Dict} {s : Selection} (h : selectModel seen.rows s = .ok new) :
    Writes P seen new (.selected s) := by
  simp only [selectModel, bind_ok, pure_ok] at h
  obtain ⟨_, _, rfl⟩ := h
  have hassigns : Assigns seen (dictSet seen.rows (lit "llm") (.dict s.entry)) [(lit "llm", .dict s.entry)] :=
    @assigns_update seen [(lit "llm", .dict s.entry)] (List.nodup_singleton _)
  refine ⟨hassigns.fields, ?_, ?_⟩
  · intro place htouches
    apply hassigns.same
    intro item hitem hkey
    obtain rfl := List.mem_singleton.mp hitem
    cases place with
    | top key => exact htouches (congrArg Place.top hkey).symm
    | mate name key =>
      have hteammates : lit "llm" ≠ lit "teammates" := by decide
      exact hteammates hkey
  · rintro - who key - - k hk htouches
    obtain rfl := Place.top.inj htouches
    exact absurd hk (by decide)

/-! ## `cmd_init` -/

theorem str_of_pyEq {v : Value} {s : PyStr} (h : pyEq v (.str s) = true) : v = .str s :=
  PyClass.str_injective (PyClass.sound h)

theorem pyEq_str (s : PyStr) : pyEq (.str s) (.str s) = true := by simp [pyEq]

theorem get?_of_pyEq {t : Object} {key s : PyStr}
    (h : pyEq (Dict.getD t.rows key .none) (.str s) = true) : t.get? key = some (.str s) := by
  have hvalue := str_of_pyEq h
  rw [getD_rows] at hvalue
  cases hget : t.get? key with
  | none =>
    rw [hget] at hvalue
    cases hvalue
  | some v =>
    rw [hget] at hvalue
    exact congrArg some hvalue

theorem initFields_nodup (setup : Setup) (address publicKey : PyStr) :
    ((initFields setup address publicKey).map Prod.fst).Nodup := by
  have hkeys : (initFields setup address publicKey).map Prod.fst =
    [lit "internet", lit "name", lit "role", lit "repo", lit "address", lit "public_key"] := rfl
  rw [hkeys]
  decide

/-- Read twice with nothing in between, the state is updated with the fields. -/
theorem assigns_init {seen : Object} {new : Dict} {setup : Setup} {address publicKey : PyStr}
    (h : initState seen.rows seen.rows setup address publicKey = .ok new) :
    Assigns seen new (initFields setup address publicKey) := by
  simp only [initState, bind_ok, pure_ok] at h
  obtain ⟨_, _, rfl⟩ := h
  have hfirst := assigns_update seen (initFields_nodup setup address publicKey)
  have hsecond : ∀ key, (KeyedTable.ofRows (dictUpdate seen.rows (dictUpdate seen.rows
      (initFields setup address publicKey)))).get? key =
      ((KeyedTable.ofRows (dictUpdate seen.rows (initFields setup address publicKey))).get? key).or
        (seen.get? key) := by
    intro key
    rw [dictUpdate_rows seen (initFields setup address publicKey), get?_dictUpdate_table, KeyedTable.ofRows_rows,
      KeyedTable.ofRows_rows]
  refine ⟨fun item hitem => ?_, fun key hkey => ?_⟩
  · rw [hsecond, hfirst.own item hitem, Option.some_or]
  · rw [hsecond, hfirst.others key hkey, Option.or_self]

theorem writes_initialized {seen : Object} {new : Dict} {setup : Setup} {address publicKey : PyStr} {same : Bool}
    (hprincipal : initPrincipal P L seen.rows setup = .ok (address, publicKey))
    (hsame : same = (pyEq (Dict.getD seen.rows (lit "address") .none) (.str address) &&
      pyEq (Dict.getD seen.rows (lit "public_key") .none) (.str publicKey)))
    (h : initState seen.rows seen.rows setup address publicKey = .ok new) :
    Writes P seen new (.initialized setup address publicKey same) := by
  have hassigns := assigns_init h
  refine ⟨hassigns.fields, ?_, ?_⟩
  · intro place htouches
    by_cases hkey : ∀ item ∈ initFields setup address publicKey, item.1 ≠ place.head
    · exact hassigns.same place hkey
    · push Not at hkey
      obtain ⟨item, hitem, hhead⟩ := hkey
      have hown := hassigns.own item hitem
      -- The principal, if it was there before; all else is touched.
      have hheld : same = true → item = (lit "address", .str address) ∨ item = (lit "public_key", .str publicKey) →
          place.classIn new = place.classIn seen.rows := by
        intro htrue hprincipal
        rw [hsame, Bool.and_eq_true] at htrue
        apply classIn_congr
        rw [← hhead, hown, KeyedTable.ofRows_rows]
        rcases hprincipal with rfl | rfl
        · exact (get?_of_pyEq htrue.1).symm
        · exact (get?_of_pyEq htrue.2).symm
      cases place with
      | mate name key =>
        have hmem : item.1 ∈ (initFields setup address publicKey).map Prod.fst := List.mem_map_of_mem hitem
        have hteammates : lit "teammates" ∉
          [lit "internet", lit "name", lit "role", lit "repo", lit "address", lit "public_key"] := by decide
        rw [hhead] at hmem
        exact absurd hmem hteammates
      | top key =>
        obtain rfl : item.1 = key := hhead
        simp only [initFields, List.mem_cons, List.not_mem_nil, or_false] at hitem
        cases same with
        | true =>
          rcases hitem with rfl | rfl | rfl | rfl | hitem
          · exact absurd ⟨_, by simp, rfl⟩ htouches
          · exact absurd ⟨_, by simp, rfl⟩ htouches
          · exact absurd ⟨_, by simp, rfl⟩ htouches
          · exact absurd ⟨_, by simp, rfl⟩ htouches
          · exact hheld rfl hitem
        | false =>
          refine absurd ⟨item.1, ?_, rfl⟩ htouches
          rcases hitem with rfl | rfl | rfl | rfl | rfl | rfl <;> simp
  · rintro - who key hwho hbound k hk ⟨key', hkey', hplace⟩
    obtain rfl := Place.top.inj hplace
    rw [initPrincipal_bound hwho hbound] at hprincipal
    obtain ⟨rfl, rfl⟩ := Prod.mk.inj (Except.ok.inj hprincipal)
    have htrue : same = true := by
      rw [hsame, getD_rows, getD_rows, hbound.address, hbound.publicKey, Option.getD_some, Option.getD_some,
        pyEq_str, pyEq_str]
      rfl
    rw [htrue, if_pos rfl, List.append_nil] at hkey'
    have hdisjoint : ∀ key ∈ bindKeys, key ∉ [lit "internet", lit "name", lit "role", lit "repo"] := by decide
    exact hdisjoint k hk hkey'

/-! ## Entries of teammates -/

theorem withTeammates_rows (t : Object) : ∃ u : Object, withTeammates t.rows = u.rows ∧
    ∀ key ≠ lit "teammates", u.get? key = t.get? key := by
  by_cases hany : (t.rows.any fun item => item.1 = lit "teammates") = true
  · exact ⟨t, if_pos hany, fun _ _ => rfl⟩
  · refine ⟨t.set (lit "teammates") (.dict []), ?_, fun key hkey => KeyedTable.get?_set_ne _ _ hkey⟩
    rw [← dictSet_rows, dictSet, withTeammates, if_neg hany, if_neg hany]

theorem valueAt_mate {t mates : Object} (h : teammates t.rows = .ok mates) (name key : PyStr) :
    valueAt (.dict t.rows) (Place.mate name key).path = (mates.get? name).bind fun mate => valueAt mate [key] := by
  rw [Place.path, valueAt_key, KeyedTable.ofRows_rows]
  rw [teammates, getD_rows] at h
  cases hget : t.get? (lit "teammates") with
  | none =>
    rw [hget] at h
    obtain rfl := Except.ok.inj h
    rfl
  | some v =>
    rw [hget, Option.getD_some] at h
    split at h
    · obtain rfl := Except.ok.inj h
      rfl
    · cases h

theorem valueAt_setMate (st : Dict) (mates : Object) (tname : PyStr) (entry : Value) (name key : PyStr) :
    valueAt (.dict (dictSet st (lit "teammates") (.dict (mates.set tname entry).rows))) (Place.mate name key).path =
      if name = tname then valueAt entry [key] else (mates.get? name).bind fun mate => valueAt mate [key] := by
  rw [Place.path, valueAt_dictSet_self, valueAt_key, KeyedTable.ofRows_rows, KeyedTable.get?_set]
  split
  · rw [Option.bind_some]
  · rfl

theorem classIn_withTeammates {t mates : Object} (hmates : teammates t.rows = .ok mates) {place : Place}
    (h : place ≠ .top (lit "teammates")) : place.classIn (withTeammates t.rows) = place.classIn t.rows := by
  obtain ⟨u, hrows, hothers⟩ := withTeammates_rows t
  cases place with
  | top key =>
    apply classIn_congr
    rw [hrows, KeyedTable.ofRows_rows, KeyedTable.ofRows_rows]
    exact hothers key fun hkey => h (congrArg Place.top hkey)
  | mate name key =>
    have hsame : teammates u.rows = .ok mates := by rw [← hrows, teammates_with, hmates]
    rw [hrows, Place.classIn, Place.classIn, classAt, classAt, valueAt_mate hmates, valueAt_mate hsame]

/-- Only the entry of that name is changed. -/
theorem setMate_others {t mates : Object} (hmates : teammates t.rows = .ok mates) (tname : PyStr) (entry : Value)
    {place : Place} (htop : place ≠ .top (lit "teammates")) (hmate : ∀ key, place ≠ .mate tname key) :
    place.classIn (dictSet (withTeammates t.rows) (lit "teammates") (.dict (mates.set tname entry).rows)) =
      place.classIn t.rows := by
  cases place with
  | top key =>
    have hkey : key ≠ lit "teammates" := fun heq => htop (congrArg Place.top heq)
    rw [← classIn_withTeammates hmates htop]
    simp only [Place.classIn, classAt, Place.path, valueAt_dictSet_ne _ _ _ hkey]
  | mate name key =>
    have hname : name ≠ tname := fun heq => hmate key (congrArg (Place.mate · key) heq)
    rw [Place.classIn, Place.classIn, classAt, classAt, valueAt_setMate, if_neg hname, valueAt_mate hmates]

theorem classIn_setMate (st : Dict) (mates : Object) (tname : PyStr) {mate : Dict} {key : PyStr} {v : Value}
    (h : (KeyedTable.ofRows mate).get? key = some v) :
    (Place.mate tname key).classIn (dictSet st (lit "teammates") (.dict (mates.set tname (.dict mate)).rows)) =
      some (PyClass.mk v) := by
  rw [Place.classIn, classAt, valueAt_setMate, if_pos rfl, valueAt_key, h]
  rfl

/-- The entry of a pin, whatever else is in it. -/
structure HasEntry (pin : Pin) (mate : Dict) : Prop where
  address : (KeyedTable.ofRows mate).get? (lit "address") = some (.str pin.addr)
  publicKey : (KeyedTable.ofRows mate).get? (lit "public_key") = some (.str pin.pub)
  url : pin.verifiedUrl ≠ [] → (KeyedTable.ofRows mate).get? (lit "url") = some (.str pin.verifiedUrl)
  mailbox : ∀ mailbox, pin.mailbox = some mailbox → (KeyedTable.ofRows mate).get? (lit "mailbox") = some mailbox

theorem HasEntry.fields {pin : Pin} {mate : Dict} (h : HasEntry pin mate) (st : Dict) (mates : Object) :
    ∀ field ∈ (Change.trusted pin).fields,
      field.1.classIn (dictSet st (lit "teammates") (.dict (mates.set pin.tname (.dict mate)).rows)) =
        some (PyClass.mk field.2) := by
  intro field hfield
  simp only [Change.fields, List.mem_append, List.mem_cons, List.not_mem_nil, or_false] at hfield
  rcases hfield with ((rfl | rfl) | hurl) | hmailbox
  · exact classIn_setMate _ _ _ h.address
  · exact classIn_setMate _ _ _ h.publicKey
  · split at hurl
    · rename_i hne
      obtain rfl := List.mem_singleton.mp hurl
      exact classIn_setMate _ _ _ (h.url hne)
    · cases hurl
  · obtain ⟨mailbox, hpin, rfl⟩ := Option.map_eq_some_iff.mp (Option.mem_toList.mp hmailbox)
    exact classIn_setMate _ _ _ (h.mailbox mailbox hpin)

theorem entryKeys_apart : lit "address" ≠ lit "public_key" ∧ lit "address" ≠ lit "url" ∧
    lit "address" ≠ lit "mailbox" ∧ lit "public_key" ≠ lit "url" ∧ lit "public_key" ≠ lit "mailbox" ∧
    lit "url" ≠ lit "mailbox" := by decide

theorem updatedMate_entry {pin : Pin} {mate newMate : Dict} (h : updatedMate P pin mate = .ok newMate) :
    HasEntry pin newMate := by
  simp only [updatedMate, bind_ok, pure_ok] at h
  obtain ⟨same, _, rfl⟩ := h
  obtain ⟨h₁, h₂, h₃, h₄, h₅, h₆⟩ := entryKeys_apart
  cases hmailbox : pin.mailbox with
  | none =>
    constructor
    · split_ifs <;> simp only [get?_dictSet, h₁, h₂, if_false, if_true]
    · split_ifs <;> simp only [get?_dictSet, h₄, if_false, if_true]
    · intro hurl
      simp only [hurl, if_true, ne_eq, not_false_eq_true, get?_dictSet]
    · rw [hmailbox]
      intro mailbox heq
      cases heq
  | some value =>
    constructor
    · simp only [get?_dictSet, h₃, if_false]
      split_ifs <;> simp only [get?_dictSet, h₁, h₂, if_false, if_true]
    · simp only [get?_dictSet, h₅, if_false]
      split_ifs <;> simp only [get?_dictSet, h₄, if_false, if_true]
    · intro hurl
      simp only [get?_dictSet, h₆, hurl, if_true, if_false, ne_eq, not_false_eq_true]
    · rw [hmailbox]
      intro mailbox heq
      obtain rfl := Option.some.inj heq
      simp only [get?_dictSet, if_true]

theorem discoveredMate_entry (pin : Pin) : HasEntry pin (discoveredMate pin) := by
  obtain ⟨_, _, h₃, _, h₅, h₆⟩ := entryKeys_apart
  unfold discoveredMate
  cases hmailbox : pin.mailbox with
  | none => exact ⟨rfl, rfl, fun _ => rfl, fun mailbox heq => by rw [hmailbox] at heq; cases heq⟩
  | some value =>
    constructor
    · simp only [get?_dictSet, h₃, if_false]
      rfl
    · simp only [get?_dictSet, h₅, if_false]
      rfl
    · intro _
      simp only [get?_dictSet, h₆, if_false]
      rfl
    · rw [hmailbox]
      intro mailbox heq
      obtain rfl := Option.some.inj heq
      simp only [get?_dictSet, if_true]

theorem planTrust_entry {home : Home} {pin : Pin} {u : Update} (h : planTrust P home pin = .ok u) :
    ∃ mates mate, teammates home.state = .ok mates ∧ HasEntry pin mate ∧
      u.state = dictSet (withTeammates home.state) (lit "teammates") (.dict (mates.set pin.tname (.dict mate)).rows) := by
  simp only [planTrust, bind_ok, pure_ok, teammates_with] at h
  obtain ⟨_, _, mates, hmates, _, _, _, _, newMate, hnew, _, _, _, _, _, _, rfl⟩ := h
  exact ⟨mates, newMate, hmates, updatedMate_entry hnew, rfl⟩

theorem planDiscover_entry {st new : Dict} {peers newPeers : Peers} {pin : Pin}
    (h : planDiscover P st peers pin = .ok (some (new, newPeers))) :
    ∃ mates mate, teammates st = .ok mates ∧ HasEntry pin mate ∧
      new = dictSet (withTeammates st) (lit "teammates") (.dict (mates.set pin.tname (.dict mate)).rows) := by
  obtain ⟨mates, hmates, _, rfl, _⟩ := planDiscover_ok h
  exact ⟨mates, discoveredMate pin, hmates, discoveredMate_entry pin, rfl⟩

/-- The state under the lock is the one that the entry was put into, or differs in what `==` does not see. -/
theorem writes_trusted {current seen mates : Object} {st mate : Dict} {pin : Pin}
    (hsame : pyEq (.dict current.rows) (.dict st) = true) (hst : st = seen.rows ∨ st = withTeammates seen.rows)
    (hmates : teammates seen.rows = .ok mates) (hentry : HasEntry pin mate) :
    Writes P current
      (dictSet (withTeammates seen.rows) (lit "teammates") (.dict (mates.set pin.tname (.dict mate)).rows))
      (.trusted pin) := by
  refine ⟨hentry.fields _ _, ?_, ?_⟩
  · intro place htouches
    have htop : place ≠ .top (lit "teammates") := fun heq => htouches (Or.inl heq)
    have hcurrent : place.classIn current.rows = place.classIn st := classAt_pyEq place.path hsame
    rw [setMate_others hmates pin.tname _ htop fun key heq => htouches (Or.inr ⟨key, heq⟩), hcurrent]
    rcases hst with rfl | rfl
    · rfl
    · exact (classIn_withTeammates hmates htop).symm
  · rintro - who key - - k hk (htop | ⟨_, hmate⟩)
    · obtain rfl := Place.top.inj htop
      exact absurd hk (by decide)
    · cases hmate

theorem writes_merged {seen : Object} {new : Dict} {o : Observation} (h : mergeTeammate P seen.rows o = .ok new) :
    Writes P seen new (.merged o) := by
  simp only [mergeTeammate, bind_ok] at h
  obtain ⟨_, _, h⟩ := h
  split at h
  · rename_i items hitems
    split at h
    · rename_i mate hmate
      simp only [bind_ok, pure_ok] at h
      obtain ⟨_, _, _, _, _, _, rfl⟩ := h
      have hmates : teammates seen.rows = .ok (KeyedTable.ofRows items) := by
        rw [getD_rows] at hitems
        rw [teammates, getD_rows]
        cases hget : seen.get? (lit "teammates") with
        | none =>
          rw [hget] at hitems
          cases hitems
        | some v =>
          rw [hget, Option.getD_some] at hitems
          rw [Option.getD_some, hitems]
      refine ⟨?_, ?_, ?_⟩
      · intro field hfield
        obtain ⟨item, hitem, rfl⟩ := List.mem_map.mp hfield
        exact classIn_setMate _ _ _ (get?_dictUpdate o.updates.nodup hitem mate)
      · intro place htouches
        cases place with
        | top key =>
          have hkey : key ≠ lit "teammates" := fun heq => htouches (Or.inl (congrArg Place.top heq))
          simp only [Place.classIn, classAt, Place.path, valueAt_dictSet_ne _ _ _ hkey]
        | mate name key =>
          rw [Place.classIn, Place.classIn, classAt, classAt, valueAt_setMate, valueAt_mate hmates]
          split
          · rename_i hname
            subst hname
            have habsent : ∀ item ∈ o.updates.rows, item.1 ≠ key := fun item hitem heq =>
              htouches (Or.inr ⟨item, hitem, congrArg (Place.mate o.name) heq.symm⟩)
            rw [hmate, Option.bind_some, valueAt_key, valueAt_key, get?_dictUpdate_of_absent habsent]
          · rfl
      · rintro - who key - - k hk (htop | ⟨_, _, hmate⟩)
        · obtain rfl := Place.top.inj htop
          exact absurd hk (by decide)
        · cases hmate
    · cases h
  · cases h

end Rdap.Cli
