import Rdap.Python.Control

/-!
# ASCII

Decoding and encoding ASCII are inverse to each other.
-/

set_option autoImplicit false

namespace Rdap.Python

theorem decodeAscii_ok {text : PyStr} {b : Bytes} : decodeAscii b = .ok text ↔ encodeAscii text = .ok b := by
  unfold decodeAscii encodeAscii
  constructor
  · intro h
    split at h
    · rename_i hall
      obtain rfl := Except.ok.inj h
      rw [List.all_eq_true] at hall
      have hascii : (decodeLatin1 b).all isAscii = true := by
        simp only [List.all_eq_true, decodeLatin1, List.mem_map]
        rintro _ ⟨x, hx, rfl⟩
        exact hall x hx
      rw [if_pos hascii, decodeLatin1, List.map_map]
      congr 1
      conv_rhs => rw [← List.map_id b]
      exact List.map_congr_left fun x _ => UInt8.ofNat_toNat
    · cases h
  · intro h
    split at h
    · rename_i hall
      obtain rfl := Except.ok.inj h
      rw [List.all_eq_true] at hall
      have hbyte : ∀ c ∈ text, (UInt8.ofNat c.val).toNat = c.val := by
        intro c hc
        have hlt : c.val < 128 := of_decide_eq_true (hall c hc)
        exact Nat.mod_eq_of_lt (by omega)
      have hsmall : (text.map fun c => UInt8.ofNat c.val).all (· < 128) = true := by
        simp only [List.all_eq_true, List.mem_map, decide_eq_true_eq]
        rintro _ ⟨c, hc, rfl⟩
        have hlt : c.val < 128 := of_decide_eq_true (hall c hc)
        rw [UInt8.lt_iff_toNat_lt, hbyte c hc]
        exact hlt
      rw [if_pos hsmall, decodeLatin1, List.map_map]
      congr 1
      conv_rhs => rw [← List.map_id text]
      exact List.map_congr_left fun c hc => Fin.ext (hbyte c hc)
    · cases h

end Rdap.Python
