import Mathlib
import Quorum.Text.Utf8

/-!
# The order of texts and of their bytes

Texts are ordered by their characters. UTF-8 keeps that order: texts compare as their bytes do
(`encode_lt_iff`), because the codes of two characters differ first at a byte that is larger
for the later one.
-/

namespace Quorum.Utf8

theorem encode_eq (s : String) : encode s = s.toList.flatMap String.utf8EncodeChar := by
  rw [encode, String.toUTF8_eq_toByteArray, ← String.utf8Encode_toList, List.utf8Encode,
    List.data_toByteArray]

/-- The code of a character is below the code of a later one, whatever follows. -/
theorem encodeChar_lt {c d : Char} (h : c.toNat < d.toNat) (l m : List UInt8) :
    String.utf8EncodeChar c ++ l < String.utf8EncodeChar d ++ m := by
  have hd : d.toNat < 0x110000 := by
    rcases d.valid with h | h
    · exact Nat.lt_trans h (by decide)
    · exact h.2
  unfold Char.toNat at h hd
  unfold String.utf8EncodeChar
  generalize c.val.toNat = v at h ⊢
  generalize d.val.toNat = w at h hd ⊢
  have h2 (n : Nat) : n / 4096 = n / 64 / 64 := by omega
  have h3 (n : Nat) : n / 262144 = n / 64 / 64 / 64 := by omega
  dsimp only
  -- The first byte that differs is within the shorter code, so the tails do not matter.
  split_ifs <;> simp only [List.cons_append, List.nil_append, List.cons_lt_cons_iff,
    UInt8.lt_iff_toNat_lt, ← UInt8.toNat_inj, UInt8.toNat_ofNat', h2, h3] <;> omega

theorem flatMap_lt {cs ds : List Char} (h : cs < ds) :
    cs.flatMap String.utf8EncodeChar < ds.flatMap String.utf8EncodeChar := by
  induction cs generalizing ds with
  | nil =>
    obtain _ | ⟨d, ds⟩ := ds
    · exact absurd h (List.lt_irrefl _)
    · rw [List.flatMap_cons, List.flatMap_nil]
      have hne : String.utf8EncodeChar d ≠ [] := by
        rw [ne_eq, ← List.length_eq_zero_iff, String.length_utf8EncodeChar]
        exact d.utf8Size_pos.ne'
      obtain ⟨b, code, hcode⟩ := List.exists_cons_of_ne_nil hne
      rw [hcode]
      exact List.nil_lt_cons _ _
  | cons c cs ih =>
    obtain _ | ⟨d, ds⟩ := ds
    · exact absurd h (List.not_lt_nil _)
    · rw [List.flatMap_cons, List.flatMap_cons]
      rcases List.cons_lt_cons_iff.1 h with hlt | ⟨rfl, hlt⟩
      · exact encodeChar_lt hlt _ _
      · exact List.append_left_lt (ih hlt)

/-- **Texts compare as their bytes do.** -/
theorem encode_lt_iff {s t : String} : encode s < encode t ↔ s < t := by
  have hlt {s t : String} (h : s < t) : encode s < encode t := by
    rw [encode_eq, encode_eq]
    exact flatMap_lt h
  refine ⟨fun h => ?_, hlt⟩
  rcases lt_trichotomy s t with hst | rfl | hts
  · exact hst
  · exact absurd h (List.lt_irrefl _)
  · exact absurd h (List.lt_asymm (hlt hts))

theorem encode_le_iff {s t : String} : encode s ≤ encode t ↔ s ≤ t :=
  not_congr encode_lt_iff

end Quorum.Utf8
