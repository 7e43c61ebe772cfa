import Mathlib
import Quorum.Proofs.Text.Order

/-!
# Characters and their bytes

`encodeChars` is the bytes of characters in a row; a text is read back from its own
(`decode_encodeChars`). An ASCII character is the byte of its code, and the bytes of any other
one are beyond ASCII, so no byte of it is taken for a quote, a backslash or a control character.
-/

namespace Quorum.Utf8

def encodeChars (cs : List Char) : Bytes := cs.flatMap String.utf8EncodeChar

theorem encode_eq_encodeChars (s : String) : encode s = encodeChars s.toList := encode_eq s

@[simp] theorem encodeChars_nil : encodeChars [] = [] := rfl

theorem encodeChars_cons (c : Char) (cs : List Char) :
    encodeChars (c :: cs) = String.utf8EncodeChar c ++ encodeChars cs := List.flatMap_cons

@[simp] theorem encodeChars_append (cs ds : List Char) :
    encodeChars (cs ++ ds) = encodeChars cs ++ encodeChars ds := List.flatMap_append

theorem encodeChars_singleton (c : Char) : encodeChars [c] = String.utf8EncodeChar c := by
  rw [encodeChars_cons, encodeChars_nil, List.append_nil]

/-- **A text is read back from its bytes.** -/
theorem decode_encodeChars (s : String) : decode? (encodeChars s.toList) = some s := by
  have hbytes : (encodeChars s.toList).toByteArray = s.toByteArray := by
    rw [← encode_eq_encodeChars, encode, String.toUTF8_eq_toByteArray]
    apply ByteArray.ext
    rw [List.data_toByteArray, Array.toArray_toList]
  unfold decode? String.fromUTF8?
  rw [hbytes, dif_pos s.isValidUTF8]
  rfl

theorem encode_injective {s t : String} (h : encode s = encode t) : s = t := by
  have hs := decode_encodeChars s
  rw [← encode_eq_encodeChars, h, encode_eq_encodeChars, decode_encodeChars] at hs
  exact (Option.some.inj hs).symm

theorem encode_of_decode? {bytes : Bytes} {s : String} (h : decode? bytes = some s) :
    encode s = bytes := by
  unfold decode? String.fromUTF8? at h
  split at h
  · cases h
    rw [encode, String.toUTF8_eq_toByteArray]
    exact congrArg Array.toList (List.data_toByteArray)
  · cases h

theorem utf8EncodeChar_ascii {c : Char} (h : c.toNat < 128) :
    String.utf8EncodeChar c = [UInt8.ofNat c.toNat] := by
  unfold Char.toNat at h ⊢
  unfold String.utf8EncodeChar
  dsimp only
  rw [if_pos (by omega)]

theorem encodeChars_ascii {c : Char} (h : c.toNat < 128) (cs : List Char) :
    encodeChars (c :: cs) = UInt8.ofNat c.toNat :: encodeChars cs := by
  rw [encodeChars_cons, utf8EncodeChar_ascii h, List.singleton_append]

theorem length_encodeChars {cs : List Char} (h : ∀ c ∈ cs, c.toNat < 128) :
    (encodeChars cs).length = cs.length := by
  induction cs with
  | nil => rfl
  | cons c cs ih =>
    rw [encodeChars_ascii (h c List.mem_cons_self), List.length_cons, List.length_cons,
      ih fun d hd => h d (List.mem_cons_of_mem _ hd)]

theorem le_of_mem_utf8EncodeChar {c : Char} (h : 128 ≤ c.toNat) {b : UInt8}
    (hb : b ∈ String.utf8EncodeChar c) : 128 ≤ b.toNat := by
  unfold Char.toNat at h
  unfold String.utf8EncodeChar at hb
  dsimp only at hb
  rw [if_neg (by omega)] at hb
  split_ifs at hb <;>
    simp only [List.mem_cons, List.not_mem_nil, or_false] at hb <;>
    rcases hb with rfl | rfl | rfl | rfl <;>
    simp only [UInt8.toNat_ofNat'] <;> omega

end Quorum.Utf8
