import Mathlib
import Quorum.Json.Reader
import Quorum.Proofs.Json.Text
import Quorum.Proofs.Text.Encoding

/-!
# Reading strings

`text` reads back what `stringChars` writes (`text_stringTail`), whatever follows. The bytes
of a character that stands for itself are taken one by one; an escape is read in one step.
-/

namespace Quorum.Json

open Ascii Utf8

/-! ## Characters that stand for themselves -/

/-- A byte inside a string that is taken as it is. -/
def IsPlain (b : UInt8) : Prop := b ≠ quote ∧ b ≠ backslash ∧ ¬ b < 0x20

instance (b : UInt8) : Decidable (IsPlain b) :=
  inferInstanceAs (Decidable (b ≠ quote ∧ b ≠ backslash ∧ ¬ b < 0x20))

theorem stringBytes_plain {bs : Bytes} (h : ∀ b ∈ bs, IsPlain b) (n : Nat) (acc s : Bytes) :
    stringBytes (bs.length + n) acc (bs ++ s) = stringBytes n (bs.reverse ++ acc) s := by
  induction bs generalizing acc with
  | nil => simp
  | cons b bs ih =>
    obtain ⟨hq, hb, hc⟩ := h b List.mem_cons_self
    rw [show (b :: bs).length + n = (bs.length + n) + 1 by rw [List.length_cons]; omega,
      List.cons_append, stringBytes.eq_def]
    dsimp only
    rw [if_neg hq, if_neg hb, if_neg hc, ih fun a ha => h a (List.mem_cons_of_mem _ ha)]
    simp

theorem isPlain_of_mem {c : Char} (hc : c.toNat ∉ escapedCodes) {b : UInt8}
    (hb : b ∈ String.utf8EncodeChar c) : IsPlain b := by
  simp only [escapedCodes, List.mem_append, List.mem_range, List.mem_cons, List.not_mem_nil,
    or_false, not_or] at hc
  suffices h : b.toNat ≠ 34 ∧ b.toNat ≠ 92 ∧ ¬ b.toNat < 32 from
    ⟨fun hq => h.1 (congrArg UInt8.toNat hq), fun hb => h.2.1 (congrArg UInt8.toNat hb),
      fun hlt => h.2.2 (UInt8.lt_iff_toNat_lt.1 hlt)⟩
  by_cases ha : c.toNat < 128
  · rw [utf8EncodeChar_ascii ha, List.mem_singleton] at hb
    rw [hb, UInt8.toNat_ofNat']
    omega
  · have := le_of_mem_utf8EncodeChar (by omega) hb
    omega

/-! ## Escapes -/

/-- The characters written as a backslash and a letter, by their codes. -/
def letterCodes : List (Nat × UInt8) :=
  [(8, lowerB), (9, lowerT), (10, lowerN), (12, lowerF), (13, lowerR), (34, quote),
   (92, backslash)]

def hexDigitByte (n : Nat) : UInt8 := UInt8.ofNat (hexDigit n).toNat

theorem escape_letter : ∀ p ∈ letterCodes,
    encodeChars (escape (Char.ofNat p.1)) = [backslash, p.2] ∧
      letterEscape p.2 = some (UInt8.ofNat p.1) ∧ p.1 < 128 := by
  decide

/-- The other control characters are written by their codes. -/
theorem escape_code : ∀ m ∈ escapedCodes, m ∉ letterCodes.map Prod.fst →
    encodeChars (escape (Char.ofNat m)) =
        [backslash, lowerU, digit0, digit0, hexDigitByte (m / 16), hexDigitByte (m % 16)] ∧
      hex4 digit0 digit0 (hexDigitByte (m / 16)) (hexDigitByte (m % 16)) = some m ∧ m < 32 := by
  decide

theorem length_escape_pos (c : Char) : 0 < (encodeChars (escape c)).length := by
  obtain ⟨a, rest, he, -⟩ := escape_head c
  rw [he, encodeChars_cons, List.length_append, String.length_utf8EncodeChar]
  exact Nat.lt_add_right _ a.utf8Size_pos

theorem codePoint_of_hex4 {a b c d : UInt8} {m : Nat} (h : hex4 a b c d = some m) (hm : m < 0xD800)
    (s : Bytes) : codePoint (a :: b :: c :: d :: s) = .ok (Char.ofNat m, s) := by
  have hl : isLeading m = false := by
    simp only [isLeading, Bool.and_eq_false_iff, decide_eq_false_iff_not]; omega
  have ht : isTrailing m = false := by
    simp only [isTrailing, Bool.and_eq_false_iff, decide_eq_false_iff_not]; omega
  unfold codePoint hexEscape
  simp only [h, bind, Except.bind, hl, ht, Bool.false_eq_true, ↓reduceIte, Bool.not_false]

theorem stringBytes_letter {e c : UInt8} (h : letterEscape e = some c) (n : Nat)
    (acc s : Bytes) :
    stringBytes (n + 1) acc (backslash :: e :: s) = stringBytes n (c :: acc) s := by
  rw [stringBytes, if_neg (by decide), if_pos rfl]
  simp only [h]

theorem stringBytes_code {a b c d : UInt8} {m : Nat} (h : hex4 a b c d = some m)
    (hm : m < 0xD800) (n : Nat) (acc s : Bytes) :
    stringBytes (n + 1) acc (backslash :: lowerU :: a :: b :: c :: d :: s) =
      stringBytes n ((String.utf8EncodeChar (Char.ofNat m)).reverse ++ acc) s := by
  have hnone : letterEscape lowerU = none := by decide
  rw [stringBytes, if_neg (by decide), if_pos rfl]
  simp only [hnone, ↓reduceIte, codePoint_of_hex4 h hm]
  rw [encode_eq, String.toList_singleton, List.flatMap_singleton]

/-- An escape is read in one step. -/
theorem stringBytes_escaped {c : Char} (hc : c.toNat ∈ escapedCodes) (n : Nat) (acc s : Bytes) :
    stringBytes (n + 1) acc (encodeChars (escape c) ++ s) =
      stringBytes n ((String.utf8EncodeChar c).reverse ++ acc) s := by
  by_cases hl : c.toNat ∈ letterCodes.map Prod.fst
  · obtain ⟨p, hp, hpc⟩ := List.mem_map.1 hl
    obtain ⟨hbytes, hletter, hascii⟩ := escape_letter p hp
    rw [hpc] at hletter hascii
    rw [hpc, Char.ofNat_toNat] at hbytes
    rw [hbytes, utf8EncodeChar_ascii hascii]
    exact stringBytes_letter hletter n acc s
  · obtain ⟨hbytes, hhex, hlow⟩ := escape_code _ hc hl
    rw [Char.ofNat_toNat] at hbytes
    rw [hbytes]
    have hstep := stringBytes_code hhex (by omega) n acc s
    rw [Char.ofNat_toNat] at hstep
    exact hstep

/-- One character of a string is read, and enough steps are left for what follows. -/
theorem stringBytes_escape (c : Char) {n k : Nat} (acc s : Bytes)
    (h : (encodeChars (escape c)).length + k ≤ n) : ∃ m, k ≤ m ∧
      stringBytes n acc (encodeChars (escape c) ++ s) =
        stringBytes m ((String.utf8EncodeChar c).reverse ++ acc) s := by
  by_cases hc : c.toNat ∈ escapedCodes
  · have hpos : 0 < (encodeChars (escape c)).length := length_escape_pos c
    obtain ⟨m, rfl⟩ : ∃ m, n = m + 1 := ⟨n - 1, by omega⟩
    exact ⟨m, by omega, stringBytes_escaped hc m acc s⟩
  · obtain ⟨he, -⟩ := (escape_cases c).resolve_right hc
    rw [he, encodeChars_singleton] at h ⊢
    obtain ⟨m, rfl⟩ := Nat.exists_eq_add_of_le (Nat.le_trans (Nat.le_add_right _ _) h)
    exact ⟨m, by omega, stringBytes_plain (fun b hb => isPlain_of_mem hc hb) m acc s⟩

/-! ## Strings -/

theorem stringBytes_encodeChars : ∀ (cs : List Char) {n : Nat} (acc rest : Bytes),
    (encodeChars (cs.flatMap escape)).length < n →
      stringBytes n acc (encodeChars (cs.flatMap escape) ++ quote :: rest) =
        .ok (acc.reverse ++ encodeChars cs, rest)
  | [], n + 1, acc, rest, _ => by
    rw [List.flatMap_nil, encodeChars_nil, List.nil_append, stringBytes.eq_def]
    dsimp only
    rw [if_pos rfl, List.append_nil]
  | c :: cs, n, acc, rest, h => by
    rw [List.flatMap_cons, encodeChars_append, List.length_append] at h
    obtain ⟨m, hm, hstep⟩ := stringBytes_escape c acc
      (encodeChars (cs.flatMap escape) ++ quote :: rest)
      (k := (encodeChars (cs.flatMap escape)).length + 1) (n := n) (by omega)
    rw [List.flatMap_cons, encodeChars_append, List.append_assoc, hstep,
      stringBytes_encodeChars cs _ _ hm, encodeChars_cons]
    simp

/-- The bytes of a quoted string behind its opening quote. -/
def stringTail (s : String) : Bytes := encodeChars (s.toList.flatMap escape) ++ [quote]

theorem encodeChars_stringChars (s : String) :
    encodeChars (stringChars s) = quote :: stringTail s := by
  rw [stringChars, encodeChars_append, encodeChars_ascii (by decide)]
  rfl

/-- **A string is read back from its text**, whatever follows. -/
theorem text_stringTail {s : String} {n : Nat} (rest : Bytes) (h : (stringTail s).length ≤ n) :
    text n (stringTail s ++ rest) = .ok (s, rest) := by
  rw [stringTail, List.length_append] at h
  unfold text stringTail
  rw [List.append_assoc, List.singleton_append,
    stringBytes_encodeChars s.toList [] rest (Nat.lt_of_succ_le h)]
  simp only [List.reverse_nil, List.nil_append, decode_encodeChars]

end Quorum.Json
