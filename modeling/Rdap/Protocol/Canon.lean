import Rdap.Python.Text

/-!
# Canonical length-prefixed fields

`lp` caps a field at 65535 bytes and fails closed above that, so the two length bytes never
wrap and a concatenation of fields can be read back in only one way.
-/

set_option autoImplicit false

namespace Rdap.Protocol
open Python Lib

def lpMaxLen : Nat := 0xFFFF

def lp (b : Bytes) : Except PyExc Bytes :=
  if b.length > lpMaxLen then valueError (lit "lp field exceeds 65535 bytes")
  else .ok (frame 2 b)

theorem lp_ok {b out : Bytes} (h : lp b = .ok out) : Fits 2 b ∧ out = frame 2 b := by
  unfold lp at h
  split at h
  · cases h
  · rename_i hlen
    refine ⟨?_, (Except.ok.inj h).symm⟩
    unfold lpMaxLen at hlen
    unfold Fits
    omega

/-- `lp(a) + lp(b) + ...` -/
def lpConcat (fields : List Bytes) : Except PyExc Bytes :=
  (fields.mapM lp).map List.flatten

theorem lpConcat_ok {fields : List Bytes} {out : Bytes} (h : lpConcat fields = .ok out) :
    (∀ f ∈ fields, Fits 2 f) ∧ out = fields.flatMap (frame 2) := by
  induction fields generalizing out with
  | nil =>
    have hout : [] = out := by simpa [lpConcat, Except.map, pure, Except.pure] using h
    exact ⟨by simp, by simp [← hout]⟩
  | cons f fs ih =>
    unfold lpConcat at h ih
    rw [List.mapM_cons] at h
    cases hf : lp f with
    | error e => simp [hf, bind, Except.bind, Except.map] at h
    | ok x =>
      cases hfs : fs.mapM lp with
      | error e => simp [hf, hfs, bind, Except.bind, Except.map] at h
      | ok xs =>
        have hout : (x :: xs).flatten = out := by
          simpa [hf, hfs, bind, Except.bind, Except.map, pure, Except.pure] using h
        have hflat : (fs.mapM lp).map List.flatten = .ok xs.flatten := by simp [hfs, Except.map]
        obtain ⟨hfits, hrest⟩ := ih hflat
        obtain ⟨hf2, hx⟩ := lp_ok hf
        refine ⟨?_, ?_⟩
        · intro g hg
          rcases List.mem_cons.mp hg with rfl | hg
          · exact hf2
          · exact hfits g hg
        · simp [← hout, hx, hrest]

theorem lpConcat_of_le {fields : List Bytes} (h : ∀ f ∈ fields, f.length ≤ lpMaxLen) :
    lpConcat fields = .ok (fields.flatMap (frame 2)) := by
  induction fields with
  | nil => rfl
  | cons f fs ih =>
    have hrest := ih fun g hg => h g (List.mem_cons_of_mem f hg)
    have hf : lp f = .ok (frame 2 f) := by
      have hle := h f List.mem_cons_self
      simp only [lp, Nat.not_lt.mpr hle, if_false]
    unfold lpConcat at hrest ⊢
    rw [List.mapM_cons, hf]
    cases hfs : fs.mapM lp with
    | error e => simp [hfs, Except.map] at hrest
    | ok xs =>
      have hxs : xs.flatten = fs.flatMap (frame 2) := by simpa [hfs, Except.map] using hrest
      simp [bind, Except.bind, pure, Except.pure, Except.map, hxs]

/-- Equal canonical bytes come from equal lists of fields. -/
theorem lpConcat_injective {xs ys : List Bytes} {out : Bytes} (hx : lpConcat xs = .ok out)
    (hy : lpConcat ys = .ok out) : xs = ys := by
  obtain ⟨hxfits, hxout⟩ := lpConcat_ok hx
  obtain ⟨hyfits, hyout⟩ := lpConcat_ok hy
  exact frames_injective (by omega) hxfits hyfits (hxout.symm.trans hyout)

end Rdap.Protocol
