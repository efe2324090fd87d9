import Rdap.Identity.Completeness
import Rdap.Python.JsonValues
import Rdap.Relay.Envelope

/-!
# Envelopes that make the verifier raise

The validator raises nothing but `ValueError`, and of a validated envelope the verifier can
convert every field but one kind: `int` of an infinite float is an `OverflowError`, which
nothing catches. JSON has such floats.
-/

set_option autoImplicit false

namespace Rdap.Relay
open Python Protocol Lib Identity Agent

variable {P : Platform}

/-! ## The validator -/

/-- Whatever is raised is a `ValueError`. -/
def ValueErrorsOnly {α : Type} (x : Except PyExc α) : Prop :=
  ∀ e, x = .error e → e.kind.isValueError = true

section
variable {α β : Type}

theorem valueErrorsOnly_ok (a : α) : ValueErrorsOnly (.ok a : Except PyExc α) := by
  intro e h
  cases h

theorem valueErrorsOnly_valueError (message : PyStr) :
    ValueErrorsOnly (valueError message : Except PyExc α) := by
  intro e h
  obtain rfl := Except.error.inj h
  rfl

theorem valueErrorsOnly_bind {x : Except PyExc α} {f : α → Except PyExc β}
    (hx : ValueErrorsOnly x) (hf : ∀ a, ValueErrorsOnly (f a)) : ValueErrorsOnly (x >>= f) := by
  intro e h
  cases x with
  | error e' =>
    obtain rfl : e' = e := Except.error.inj h
    exact hx _ rfl
  | ok a => exact hf a e h

theorem valueErrorsOnly_require (c : Prop) [Decidable c] (message : PyStr) :
    ValueErrorsOnly (require c message) := by
  unfold require
  split
  · exact valueErrorsOnly_ok ()
  · exact valueErrorsOnly_valueError message

end

theorem valueErrorsOnly_checkUnicode (name : String) (value : PyStr) :
    ValueErrorsOnly (checkUnicode name value) := by
  unfold checkUnicode
  split
  · exact valueErrorsOnly_ok _
  · exact valueErrorsOnly_valueError _

theorem valueErrorsOnly_component (peer : PyStr) : ValueErrorsOnly (validatePeerComponent peer) := by
  unfold validatePeerComponent
  split
  · exact valueErrorsOnly_ok _
  · exact valueErrorsOnly_valueError _

theorem valueErrorsOnly_signatureHash (signature : PyStr) :
    ValueErrorsOnly (signatureHash P signature) := by
  unfold signatureHash
  split
  · exact valueErrorsOnly_ok _
  · exact valueErrorsOnly_valueError _

theorem validatedEnvelope_raises (envelope : Value) (kind : PyStr) :
    ValueErrorsOnly (validatedEnvelope P envelope kind) := by
  unfold validatedEnvelope
  split
  · dsimp only
    split
    · split
      · refine valueErrorsOnly_bind (valueErrorsOnly_checkUnicode _ _) fun _ => ?_
        refine valueErrorsOnly_bind (valueErrorsOnly_checkUnicode _ _) fun _ => ?_
        refine valueErrorsOnly_bind (valueErrorsOnly_checkUnicode _ _) fun _ => ?_
        refine valueErrorsOnly_bind (valueErrorsOnly_checkUnicode _ _) fun _ => ?_
        refine valueErrorsOnly_bind (valueErrorsOnly_checkUnicode _ _) fun encodedText => ?_
        refine valueErrorsOnly_bind (valueErrorsOnly_require _ _) fun _ => ?_
        refine valueErrorsOnly_bind (valueErrorsOnly_component _) fun _ => ?_
        refine valueErrorsOnly_bind (valueErrorsOnly_component _) fun _ => ?_
        refine valueErrorsOnly_bind (valueErrorsOnly_require _ _) fun _ => ?_
        refine valueErrorsOnly_bind (valueErrorsOnly_require _ _) fun _ => ?_
        refine valueErrorsOnly_bind (valueErrorsOnly_require _ _) fun _ => ?_
        refine valueErrorsOnly_bind (valueErrorsOnly_require _ _) fun _ => ?_
        split
        · refine valueErrorsOnly_bind (valueErrorsOnly_require _ _) fun _ => ?_
          refine valueErrorsOnly_bind (valueErrorsOnly_signatureHash _) fun _ => ?_
          exact valueErrorsOnly_ok _
        · exact valueErrorsOnly_valueError _
      · exact valueErrorsOnly_valueError _
    · exact valueErrorsOnly_valueError _
  · exact valueErrorsOnly_valueError _

/-- What a validated envelope is known to have. -/
structure Validated (P : Platform) (envelope : Value) (env : Envelope) : Prop where
  metadata : ∃ items, envelope = .dict items ∧
    Dict.getD items (lit "raven") .none = .dict env.metadata
  nonempty : env.metadata ≠ []
  sender : isPeerComponent env.sender = true
  taskId : ∃ encoded, encodeUtf8 env.taskId = .ok encoded
  taskId_short : env.taskId ≠ [] ∧ env.taskId.length ≤ 128
  text : ∃ encoded, encodeUtf8 env.text = .ok encoded
  signature : ∃ key, signatureHash P env.signature = .ok key

theorem checkUnicode_ok {name : String} {value : PyStr} {encoded : Bytes} :
    checkUnicode name value = .ok encoded ↔ encodeUtf8 value = .ok encoded := by
  unfold checkUnicode
  split <;> simp_all [valueError]

theorem require_ok {c : Prop} [Decidable c] {message : PyStr} {u : Unit} :
    require c message = .ok u ↔ c := by
  unfold require
  split <;> simp_all [valueError]

theorem validatedEnvelope_ok {envelope : Value} {kind : PyStr} {env : Envelope}
    (h : validatedEnvelope P envelope kind = .ok env) : Validated P envelope env := by
  unfold validatedEnvelope at h
  split at h
  · rename_i items
    dsimp only at h
    split at h
    · rename_i metadata hmetadata
      split at h
      · simp only [bind_ok, checkUnicode_ok, require_ok, exists_const] at h
        obtain ⟨_, _, _, _, _, htask, _, _, _, htext, hpresent, _, hsender, _, _, hshort, _, _, _, h⟩ := h
        split at h
        · rename_i signature hsignature
          simp only [bind_ok, require_ok, exists_const, pure_ok] at h
          obtain ⟨_, _, hkey, rfl⟩ := h
          have hne : metadata ≠ [] := by
            rintro rfl
            cases hsignature
          refine ⟨⟨items, rfl, hmetadata⟩, hne, ?_, ⟨_, htask⟩, ⟨hpresent.2.2, hshort⟩, ⟨_, htext⟩,
            ⟨_, hkey⟩⟩
          unfold validatePeerComponent at hsender
          split at hsender
          · assumption
          · cases hsender
        · cases h
      · cases h
    · cases h
  · cases h

/-! ## Fields that JSON text can give -/

/-- The two infinite floats. -/
def isInfinite : Value → Bool
  | .float bits => bits.toNat / 2 ^ 52 % 2 ^ 11 = 2047 && bits.toNat % 2 ^ 52 = 0
  | _ => false

theorem isInfinite_float (bits : UInt64) : isInfinite (.float bits) = true ↔
    bits.toNat / 2 ^ 52 % 2 ^ 11 = 2047 ∧ bits.toNat % 2 ^ 52 = 0 := by
  unfold isInfinite
  rw [Bool.and_eq_true, decide_eq_true_eq, decide_eq_true_eq]

/-- `int` overflows on an infinite float and on nothing else. -/
theorem pyInt_cases (v : Value) :
    (isInfinite v = false ∧ ((∃ n, pyInt P v = .ok n) ∨
      ∃ e, pyInt P v = .error e ∧ typeOrValueError e.kind = true)) ∨
    (isInfinite v = true ∧ ∃ e, pyInt P v = .error e ∧ typeOrValueError e.kind = false) := by
  cases v with
  | none => exact Or.inl ⟨rfl, Or.inr ⟨_, rfl, rfl⟩⟩
  | bool b => exact Or.inl ⟨rfl, Or.inl ⟨_, rfl⟩⟩
  | int n => exact Or.inl ⟨rfl, Or.inl ⟨n, rfl⟩⟩
  | list items => exact Or.inl ⟨rfl, Or.inr ⟨_, rfl, rfl⟩⟩
  | dict items => exact Or.inl ⟨rfl, Or.inr ⟨_, rfl, rfl⟩⟩
  | str s =>
    refine Or.inl ⟨rfl, ?_⟩
    unfold pyInt intOfStr
    dsimp only
    split
    · split
      · exact Or.inl ⟨_, rfl⟩
      · exact Or.inr ⟨_, rfl, rfl⟩
    · exact Or.inr ⟨_, rfl, rfl⟩
  | float bits =>
    by_cases hexponent : bits.toNat / 2 ^ 52 % 2 ^ 11 = 2047
    · by_cases hfraction : bits.toNat % 2 ^ 52 = 0
      · have hpy : pyInt P (.float bits) = .error ⟨.overflowError,
            lit "cannot convert float infinity to integer"⟩ := by
          simp only [pyInt, intOfFloat, hexponent, hfraction, if_true]
        exact Or.inr ⟨(isInfinite_float bits).mpr ⟨hexponent, hfraction⟩, _, hpy, rfl⟩
      · have hpy : pyInt P (.float bits) =
            valueError (lit "cannot convert float NaN to integer") := by
          simp only [pyInt, intOfFloat, hexponent, hfraction, if_true, if_false]
        have hfinite : isInfinite (.float bits) = false :=
          Bool.eq_false_of_not_eq_true fun h => hfraction ((isInfinite_float bits).mp h).2
        exact Or.inl ⟨hfinite, Or.inr ⟨_, hpy, rfl⟩⟩
    · have hfinite : isInfinite (.float bits) = false :=
        Bool.eq_false_of_not_eq_true fun h => hexponent ((isInfinite_float bits).mp h).1
      have hpy : ∃ n, intOfFloat bits = .ok n := by
        unfold intOfFloat
        dsimp only
        rw [if_neg hexponent]
        exact ⟨_, rfl⟩
      exact Or.inl ⟨hfinite, Or.inl hpy⟩

theorem getStr_defined {metadata : Dict} (hprintable : Json.Printable (.dict metadata))
    (key : String) : ∃ text, getStr P metadata key = .ok text :=
  pyStr_defined (getD_printable hprintable _ trivial)

theorem fromhex_length {s : PyStr} {b : Bytes} (h : fromhex s = .ok b) :
    2 * b.length ≤ s.length := by
  induction s using fromhex.induct generalizing b with
  | case1 =>
    obtain rfl := Except.ok.inj h
    exact Nat.le_refl 0
  | case2 c rest hspace ih =>
    rw [fromhex.eq_def] at h
    simp only [hspace, if_true] at h
    have := ih h
    simp only [List.length_cons]
    omega
  | case3 c hspace hi d rest hhi lo hlo ih =>
    rw [fromhex.eq_def] at h
    simp only [hspace, hhi, hlo, Bool.false_eq_true, if_false] at h
    cases hrest : fromhex rest with
    | error e => simp [hrest, Except.map] at h
    | ok tail =>
      simp only [hrest, Except.map, Except.ok.injEq] at h
      have := ih hrest
      rw [← h]
      simp only [List.length_cons]
      omega
  | case4 c hspace hi d rest hhi hlo =>
    rw [fromhex.eq_def] at h
    simp only [hspace, hhi, hlo, Bool.false_eq_true, if_false] at h
    cases h
  | case5 c rest hspace hother =>
    rw [fromhex.eq_def] at h
    simp only [hspace, Bool.false_eq_true, if_false] at h
    cases h

/-- A clock reading, a day more or less, is encoded in a short field. -/
theorem encodeInt_near_clock {now n : Int} (hclock : ClockReading now) (hlow : now - 90000 ≤ n)
    (hhigh : n ≤ now + 90000) : ∃ b, encodeInt n = .ok b ∧ b.length ≤ lpMaxLen := by
  have hsmall := clock_small hclock
  have hbound : n.natAbs < 10 ^ clockDigits := by omega
  have htext : strInt n = .ok (intDecimal n) := strInt_defined
    (Nat.lt_of_lt_of_le hbound (Nat.pow_le_pow_right (by decide) (by decide)))
  have hascii : (intDecimal n).all isAscii = true ∧ (intDecimal n).length ≤ 401 := by
    have hlen := natDecimal_length (by decide) hbound
    have hdigits : clockDigits = 400 := rfl
    have hplain := natDecimal_ascii n.natAbs
    have hminus : isAscii 45 = true := by decide
    unfold intDecimal
    split
    · exact ⟨by simp [hplain, hminus], by simp only [List.length_cons]; omega⟩
    · exact ⟨hplain, by omega⟩
  obtain ⟨b, hb, hlen⟩ := encodeAscii_of_ascii hascii.1
  refine ⟨b, ?_, by unfold lpMaxLen; omega⟩
  simp [encodeInt, htext, hb, bind, Except.bind]

/-! ## The verifier -/

/-- The checks before the time bounds pass. -/
structure ReachesBounds (P : Platform) (metadata : Dict) (trustedPeers : Peers)
    (revoked : List PyStr) (expected : Expected) : Prop where
  pinned : ∃ sender pin, getStr P metadata "sender" = .ok sender ∧
    trustedPeers.get? sender = some pin ∧ sender ∉ revoked
  context : getStr P metadata "context" = .ok signingContext
  recipient : getStr P metadata "recipient" = .ok expected.recipient
  taskId : getStr P metadata "task_id" = .ok expected.taskId
  kind : getStr P metadata "kind" = .ok expected.kind

/-- An infinite bound is converted: the first, or the second behind a readable first. -/
def InfiniteBound (P : Platform) (metadata : Dict) : Prop :=
  isInfinite (metadata.getD (lit "issued_at") (.int 0)) = true ∨
    (∃ issuedAt, getInt P metadata "issued_at" = .ok issuedAt) ∧
      isInfinite (metadata.getD (lit "expires_at") (.int 0)) = true

theorem getInt_raises {metadata : Dict} {key : String} {badBounds : PyExc → PyStr} :
    (∃ e, orReject typeOrValueError badBounds (getInt P metadata key) = .error (.raised e)) ↔
      isInfinite (metadata.getD (lit key) (.int 0)) = true := by
  unfold getInt
  rcases pyInt_cases (P := P) (metadata.getD (lit key) (.int 0)) with
    ⟨hfinite, ⟨n, hn⟩ | ⟨e, he, hcaught⟩⟩ | ⟨hinfinite, e, he, hcaught⟩
  · simp [hn, orReject, hfinite]
  · simp [he, orReject, hfinite, hcaught]
  · simp [he, orReject, hinfinite, hcaught]

/-- An exception leaves the block. -/
def Raises {α : Type} (x : Except Stop α) : Prop := ∃ e, x = .error (.raised e)

section
variable {α β : Type}

theorem raises_bind {x : Except Stop α} {f : α → Except Stop β} :
    Raises (x >>= f) ↔ Raises x ∨ ∃ a, x = .ok a ∧ Raises (f a) := by
  cases x with
  | error stop => simp [Raises, bind, Except.bind]
  | ok a => simp [Raises, bind, Except.bind]

theorem not_raises_ok (a : α) : ¬ Raises (.ok a : Except Stop α) := by
  rintro ⟨e, h⟩
  cases h

theorem not_raises_rejected (reason : PyStr) :
    ¬ Raises (.error (.rejected reason) : Except Stop α) := by
  rintro ⟨e, h⟩
  cases h

theorem not_raises_raising {x : Except PyExc α} (h : ∃ a, x = .ok a) : ¬ Raises (raising x) := by
  obtain ⟨a, rfl⟩ := h
  exact not_raises_ok a

theorem not_raises_ensure (c : Prop) [Decidable c] (reason : PyStr) : ¬ Raises (ensure c reason) := by
  unfold ensure
  split
  · exact not_raises_ok ()
  · exact not_raises_rejected reason

theorem not_raises_orReject {caught : ExcKind → Bool} {reason : PyExc → PyStr} {x : Except PyExc α}
    (h : ∀ e, x = .error e → caught e.kind = true) : ¬ Raises (orReject caught reason x) := by
  rintro ⟨e, hraised⟩
  cases x with
  | ok a => cases hraised
  | error e' => simp [orReject, h e' rfl] at hraised

/-- The next step, when this one cannot raise. -/
theorem Raises.next {x : Except Stop α} {f : α → Except Stop β} (hx : ¬ Raises x)
    (h : Raises (x >>= f)) : ∃ a, x = .ok a ∧ Raises (f a) :=
  (raises_bind.mp h).resolve_left hx

theorem raises_after {x : Except Stop α} {f : α → Except Stop β} {a : α} (hx : x = .ok a)
    (h : Raises (f a)) : Raises (x >>= f) := raises_bind.mpr (Or.inr ⟨a, hx, h⟩)

theorem raises_after_ensure {c : Prop} [Decidable c] {reason : PyStr} {f : Unit → Except Stop β}
    (hc : c) (h : Raises (f ())) : Raises (ensure c reason >>= f) :=
  raises_after (ensure_ok.mpr hc) h

end

theorem not_raises_checkLifetime (now issuedAt expiresAt : Int) (f o m e : PyStr) :
    ¬ Raises (checkLifetime now issuedAt expiresAt f o m e) := by
  intro h
  unfold checkLifetime at h
  obtain ⟨_, _, h⟩ := h.next (not_raises_ensure _ _)
  obtain ⟨_, _, h⟩ := h.next (not_raises_ensure _ _)
  obtain ⟨_, _, h⟩ := h.next (not_raises_ensure _ _)
  exact not_raises_ensure _ _ h

theorem fromhex_valueErrors (s : PyStr) (e : PyExc) (h : fromhex s = .error e) :
    e.kind.isValueError = true := by
  induction s using fromhex.induct with
  | case1 => cases h
  | case2 c rest hspace ih =>
    rw [fromhex.eq_def] at h
    simp only [hspace, if_true] at h
    exact ih h
  | case3 c hspace hi d rest hhi lo hlo ih =>
    rw [fromhex.eq_def] at h
    simp only [hspace, hhi, hlo, Bool.false_eq_true, if_false] at h
    cases hrest : fromhex rest with
    | error e' =>
      simp only [hrest, Except.map, Except.error.injEq] at h
      exact ih (hrest.trans (congrArg _ h))
    | ok tail => simp [hrest, Except.map] at h
  | case4 c hspace hi d rest hhi hlo =>
    rw [fromhex.eq_def] at h
    simp only [hspace, hhi, hlo, Bool.false_eq_true, if_false] at h
    obtain rfl := Except.error.inj h
    rfl
  | case5 c rest hspace hother =>
    rw [fromhex.eq_def] at h
    simp only [hspace, Bool.false_eq_true, if_false] at h
    obtain rfl := Except.error.inj h
    rfl

/-- What the caller of the verifier knows of its arguments. -/
structure Encodes (expected : Expected) (text : PyStr) : Prop where
  recipient : ∃ b, encodeUtf8 expected.recipient = .ok b ∧ b.length ≤ lpMaxLen
  taskId : ∃ b, encodeUtf8 expected.taskId = .ok b ∧ b.length ≤ lpMaxLen
  kind : ∃ b, encodeAscii expected.kind = .ok b ∧ b.length ≤ lpMaxLen
  text : ∃ b, encodeUtf8 text = .ok b

section
variable {metadata : Dict} {text : PyStr} {trustedPeers : Peers} {revoked : List PyStr}
  {expected : Expected} {now : Int}

/-- Behind all checks the bytes to verify are defined. -/
theorem signingBytes_of_checked {f : DelegationFields} {publicKey raw : Bytes} {pin : PyStr}
    (hclock : ClockReading now) (hencodes : Encodes expected text)
    (hfields : f.recipient = expected.recipient ∧ f.taskId = expected.taskId ∧
      f.kind = expected.kind ∧ f.text = text)
    (hlife : LifetimeOk now f.issuedAt f.expiresAt) (hnonce : fromhex f.nonce = .ok raw)
    (hlength : f.nonce.length = nonceBytes * 2)
    (hkey : validateAddressPublicKey P f.sender pin = .ok publicKey) :
    ∃ out, delegationSigningBytes P f = .ok out := by
  obtain ⟨hrecipient, htask, hkind, htext⟩ := hfields
  obtain ⟨r, hr, hrl⟩ := hencodes.recipient
  obtain ⟨t, ht, htl⟩ := hencodes.taskId
  obtain ⟨k, hk, hkl⟩ := hencodes.kind
  obtain ⟨x, hx⟩ := hencodes.text
  have haddress := (validateAddressPublicKey_ok P hkey).2
  obtain ⟨s, hs, hsl⟩ := encodeUtf8_of_ascii (haddress ▸ Address.encode_ascii P publicKey)
  have hsender : f.sender.length < 50 := haddress ▸ Address.encode_length P publicKey
  have ⟨hfuture, horder, hbounded, hlive⟩ := hlife
  unfold maxFutureSkewSeconds at hfuture
  unfold maxDelegationTtlSeconds at hbounded
  obtain ⟨i, hi, hil⟩ := encodeInt_near_clock hclock (n := f.issuedAt) (by omega) (by omega)
  obtain ⟨e, he, hel⟩ := encodeInt_near_clock hclock (n := f.expiresAt) (by omega) (by omega)
  have hraw := fromhex_length hnonce
  have hmax : lpMaxLen = 65535 := rfl
  have hbytes : nonceBytes = 16 := rfl
  apply delegationSigningBytes_of_encoded hs (hrecipient ▸ hr) (htask ▸ ht) (hkind ▸ hk)
    (htext ▸ hx) hi he hnonce
  simp only [List.mem_cons, List.not_mem_nil, or_false, forall_eq_or_imp, forall_eq]
  omega

/-- The verifier raises on an infinite bound and on nothing else that JSON can give. -/
theorem checkDelegation_raises_iff (hprintable : Json.Printable (.dict metadata))
    (hclock : ClockReading now) (hencodes : Encodes expected text)
    (hpresent : expected.recipient ≠ [] ∧ expected.taskId ≠ []) :
    Raises (checkDelegation P metadata text trustedPeers revoked expected now) ↔
      ReachesBounds P metadata trustedPeers revoked expected ∧ InfiniteBound P metadata := by
  obtain ⟨sender, hs⟩ := getStr_defined (P := P) hprintable "sender"
  obtain ⟨context, hc⟩ := getStr_defined (P := P) hprintable "context"
  obtain ⟨recipient, hr⟩ := getStr_defined (P := P) hprintable "recipient"
  obtain ⟨taskId, ht⟩ := getStr_defined (P := P) hprintable "task_id"
  obtain ⟨kind, hk⟩ := getStr_defined (P := P) hprintable "kind"
  obtain ⟨nonce, hn⟩ := getStr_defined (P := P) hprintable "nonce"
  constructor
  · intro h
    unfold checkDelegation at h
    obtain ⟨sender', hsender, h⟩ := h.next (not_raises_raising ⟨_, hs⟩)
    obtain rfl : sender = sender' := Except.ok.inj (hs.symm.trans (raising_ok.mp hsender))
    split at h
    · exact absurd h (not_raises_rejected _)
    · rename_i pin hpin
      obtain ⟨_, hrevoked, h⟩ := h.next (not_raises_ensure _ _)
      obtain ⟨_, hcontext, h⟩ := h.next (not_raises_raising ⟨_, hc⟩)
      obtain ⟨_, hcontext', h⟩ := h.next (not_raises_ensure _ _)
      obtain ⟨_, _, h⟩ := h.next (not_raises_ensure _ _)
      obtain ⟨_, hrecipient, h⟩ := h.next (not_raises_raising ⟨_, hr⟩)
      obtain ⟨_, htask, h⟩ := h.next (not_raises_raising ⟨_, ht⟩)
      obtain ⟨_, hkind, h⟩ := h.next (not_raises_raising ⟨_, hk⟩)
      obtain ⟨_, hrecipient', h⟩ := h.next (not_raises_ensure _ _)
      obtain ⟨_, htask', h⟩ := h.next (not_raises_ensure _ _)
      obtain ⟨_, hkind', h⟩ := h.next (not_raises_ensure _ _)
      rw [raising_ok] at hcontext hrecipient htask hkind
      rw [ensure_ok] at hrevoked hcontext' hrecipient' htask' hkind'
      subst hcontext' hrecipient' htask' hkind'
      refine ⟨⟨⟨sender, pin, hs, hpin, hrevoked⟩, hcontext, hrecipient, htask, hkind⟩, ?_⟩
      rcases raises_bind.mp h with h | ⟨issuedAt, hissued, h⟩
      · exact Or.inl (getInt_raises.mp h)
      · rw [orReject_ok] at hissued
        refine Or.inr ⟨⟨issuedAt, hissued⟩, ?_⟩
        rcases raises_bind.mp h with h | ⟨expiresAt, _, h⟩
        · exact getInt_raises.mp h
        · exfalso
          obtain ⟨_, hlife, h⟩ := h.next (not_raises_checkLifetime _ _ _ _ _ _ _)
          obtain ⟨nonce', hnonce, h⟩ := h.next (not_raises_raising ⟨_, hn⟩)
          obtain ⟨_, hlength, h⟩ := h.next (not_raises_ensure _ _)
          obtain ⟨raw, hraw, h⟩ := h.next (not_raises_orReject (fromhex_valueErrors _))
          obtain ⟨_, _, h⟩ := h.next (not_raises_orReject fun _ _ => rfl)
          obtain ⟨_, _, h⟩ := h.next (not_raises_orReject fun _ _ => rfl)
          obtain ⟨publicKey, hkey, h⟩ := h.next (not_raises_orReject fun _ _ => rfl)
          rw [checkLifetime_ok] at hlife
          rw [ensure_ok] at hlength
          rw [orReject_ok] at hraw hkey
          obtain ⟨_, _, h⟩ := h.next (not_raises_raising
            (signingBytes_of_checked hclock hencodes ⟨rfl, rfl, rfl, rfl⟩ hlife hraw hlength hkey))
          obtain ⟨_, _, h⟩ := h.next (not_raises_ensure _ _)
          exact not_raises_ok _ h
  · rintro ⟨⟨⟨sender', pin, hs', hpin, hrevoked⟩, hcontext, hrecipient, htask, hkind⟩, hinfinite⟩
    unfold checkDelegation
    apply raises_after (raising_ok.mpr hs')
    simp only [hpin]
    apply raises_after_ensure hrevoked
    apply raises_after (raising_ok.mpr hcontext)
    apply raises_after_ensure rfl
    apply raises_after_ensure hpresent
    apply raises_after (raising_ok.mpr hrecipient)
    apply raises_after (raising_ok.mpr htask)
    apply raises_after (raising_ok.mpr hkind)
    apply raises_after_ensure rfl
    apply raises_after_ensure rfl
    apply raises_after_ensure rfl
    rcases hinfinite with hissued | ⟨⟨issuedAt, hissued⟩, hexpires⟩
    · exact raises_bind.mpr (Or.inl (getInt_raises.mpr hissued))
    · apply raises_after (orReject_ok.mpr hissued)
      exact raises_bind.mpr (Or.inl (getInt_raises.mpr hexpires))

end

/-! ## The peek -/

/-- The envelope is valid, comes from a pinned peer by all that is checked before the time
bounds, and has an infinite one. -/
def Poisoned (P : Platform) (node : RelayNode) (policy : Policy) (envelope : Value) : Prop :=
  ∃ env peers revoked, validatedEnvelope P envelope (lit "task") = .ok env ∧
    policy.peers = .ok peers ∧ policy.revocations = .ok revoked ∧
    getStr P env.metadata "sender" = .ok env.sender ∧ env.recipient = node.address P ∧
    ReachesBounds P env.metadata peers revoked ⟨node.address P, env.taskId, lit "task"⟩ ∧
    InfiniteBound P env.metadata

section
variable {node : RelayNode} {policy : Policy} {now : Int} {envelope : Value} {peers : Peers}
  {revoked : List PyStr}

theorem Validated.encodes {env : Envelope} (h : Validated P envelope env) :
    Encodes ⟨node.address P, env.taskId, lit "task"⟩ env.text where
  recipient := by
    obtain ⟨b, hb, hlen⟩ := encodeUtf8_of_ascii (Address.encode_ascii P node.identity.publicBytes)
    have hshort := Address.encode_length P node.identity.publicBytes
    exact ⟨b, hb, by unfold lpMaxLen; omega⟩
  taskId := by
    obtain ⟨b, hb⟩ := h.taskId
    have hlen := encodeUtf8_length hb
    have hshort := h.taskId_short.2
    exact ⟨b, hb, by unfold lpMaxLen; omega⟩
  kind := by
    obtain ⟨b, hb, hlen⟩ := encodeAscii_of_ascii (s := lit "task") (by decide)
    have hshort : (lit "task").length = 4 := by decide
    exact ⟨b, hb, by unfold lpMaxLen; omega⟩
  text := h.text

theorem Validated.printable {env : Envelope} (h : Validated P envelope env)
    (hprintable : Json.Printable envelope) : Json.Printable (.dict env.metadata) := by
  obtain ⟨items, rfl, hmetadata⟩ := h.metadata
  rw [← hmetadata]
  exact getD_printable hprintable _ trivial

/-- Without consumption the verifier raises where its checks do. -/
theorem verifyDelegation_raises_iff {metadata : Dict} {text : PyStr} {cache : ReplayCache}
    {expected : Expected} {faults : Identity.Faults} {later : Int} {db : Ledger} :
    Raises (raising (verifyDelegation P metadata text peers true revoked cache expected false faults
      now later db).1) ↔
    metadata ≠ [] ∧ Raises (checkDelegation P metadata text peers revoked expected now) := by
  unfold verifyDelegation
  by_cases hempty : metadata = []
  · simp only [hempty, if_true, ne_eq, not_true_eq_false, false_and, iff_false]
    exact not_raises_ok _
  · simp only [hempty, if_false, Bool.false_eq_true, ne_eq, not_false_eq_true, true_and]
    cases hcheck : checkDelegation P metadata text peers revoked expected now with
    | ok a => simp [Raises, raising]
    | error stop => cases stop <;> simp [Raises, raising]

/-- An accepted delegation has a readable expiry. -/
theorem accepted_expires {metadata : Dict} {text : PyStr} {cache : ReplayCache}
    {expected : Expected} {faults : Identity.Faults} {later : Int} {db : Ledger}
    {answer : Bool × PyStr} (hne : metadata ≠ []) (haccepted : answer.1 = true)
    (h : (verifyDelegation P metadata text peers true revoked cache expected false faults now later
      db).1 = .ok answer) : ∃ expiresAt, getInt P metadata "expires_at" = .ok expiresAt := by
  obtain ⟨ok, reason⟩ := answer
  obtain rfl : ok = true := haccepted
  obtain ⟨a, hcheck, _, _⟩ := verifyDelegation_accepts P hne (Prod.ext h rfl)
  exact ⟨a.expiresAt, (checkDelegation_ok P hcheck).expiresAt⟩

theorem peek_raises_iff (hprintable : Json.Printable envelope) (hclock : ClockReading now)
    (hpeers : policy.peers = .ok peers) (hrevocations : policy.revocations = .ok revoked) :
    Raises (peek P node policy now envelope) ↔ Poisoned P node policy envelope := by
  have hpresent : ∀ env : Envelope, Validated P envelope env →
      node.address P ≠ [] ∧ env.taskId ≠ [] := fun env hvalid =>
    ⟨Address.encode_ne_nil P node.identity.publicBytes, hvalid.taskId_short.1⟩
  constructor
  · intro h
    unfold peek at h
    obtain ⟨env, henv, h⟩ := h.next (not_raises_orReject (validatedEnvelope_raises _ _))
    rw [orReject_ok] at henv
    have hvalid := validatedEnvelope_ok henv
    have hmetadata := hvalid.printable hprintable
    obtain ⟨sender, hsender, h⟩ := h.next (not_raises_raising (getStr_defined hmetadata _))
    obtain ⟨_, hsame, h⟩ := h.next (not_raises_ensure _ _)
    obtain ⟨_, hrecipient, h⟩ := h.next (not_raises_ensure _ _)
    rw [hpeers, hrevocations] at h
    obtain ⟨peers', hpeers', h⟩ := h.next (not_raises_raising ⟨_, rfl⟩)
    obtain ⟨revoked', hrevoked', h⟩ := h.next (not_raises_raising ⟨_, rfl⟩)
    rw [raising_ok] at hsender hpeers' hrevoked'
    rw [ensure_ok] at hsame hrecipient
    obtain rfl := Except.ok.inj hpeers'
    obtain rfl := Except.ok.inj hrevoked'
    have hiff := @checkDelegation_raises_iff P env.metadata env.text peers revoked
      ⟨node.address P, env.taskId, lit "task"⟩ now hmetadata hclock hvalid.encodes
      (hpresent env hvalid)
    rcases raises_bind.mp h with h | ⟨answer, hanswer, h⟩
    · obtain ⟨hreaches, hinfinite⟩ := hiff.mp (verifyDelegation_raises_iff.mp h).2
      exact ⟨env, peers, revoked, henv, hpeers, hrevocations, hsame ▸ hsender, hrecipient, hreaches,
        hinfinite⟩
    · exfalso
      obtain ⟨_, haccepted, h⟩ := h.next (not_raises_ensure _ _)
      rw [raising_ok] at hanswer
      rw [ensure_ok] at haccepted
      obtain ⟨expiresAt, hexpires⟩ := accepted_expires (hvalid.nonempty) haccepted hanswer
      obtain ⟨_, _, h⟩ := h.next (not_raises_raising ⟨_, hexpires⟩)
      exact not_raises_ok _ h
  · rintro ⟨env, peers', revoked', henv, hpeers', hrevoked', hsender, hrecipient, hreaches, hinfinite⟩
    obtain rfl := Except.ok.inj (hpeers.symm.trans hpeers')
    obtain rfl := Except.ok.inj (hrevocations.symm.trans hrevoked')
    have hvalid := validatedEnvelope_ok henv
    have hraises := (checkDelegation_raises_iff (hvalid.printable hprintable) hclock hvalid.encodes
      (hpresent env hvalid)).mpr ⟨hreaches, hinfinite⟩
    unfold peek
    apply raises_after (orReject_ok.mpr henv)
    apply raises_after (raising_ok.mpr hsender)
    apply raises_after_ensure rfl
    apply raises_after_ensure hrecipient
    apply raises_after (raising_ok.mpr hpeers)
    apply raises_after (raising_ok.mpr hrevocations)
    exact raises_bind.mpr (Or.inl (verifyDelegation_raises_iff.mpr ⟨hvalid.nonempty, hraises⟩))

end

end Rdap.Relay
