import Mathlib
import Quorum.Proofs.Message.Codec

/-!
# Reading from any source

A source that `Delivers` some bytes hands them out in pieces of any size and then ends, or fails
once it has handed out a number of them. What a message reads as then depends on the bytes and on
where the source fails, not on the pieces (`Delivers.readMessage_eq`), and no read goes further
than one byte beyond the limit (`reading_spec`).
-/

namespace Quorum

open Json

namespace Source

/-- The source hands out `bytes`, but fails once it has handed out `failAt` of them. A read that
yields nothing is the end, so no piece before it is empty. -/
structure Delivers (s : Source) (bytes : Bytes) (failAt : Option Nat) : Prop where
  nonempty : ∀ p ∈ s.pieces, p ≠ []
  flatten : s.pieces.flatten = bytes.take (failAt.getD bytes.length)
  fails : s.fails = true ↔ ∃ f, failAt = some f ∧ f ≤ bytes.length

/-- The failure comes before the end of the bytes is seen and before there are too many of them. -/
def Breaks (bytes : Bytes) (failAt : Option Nat) : Prop :=
  ∃ f, failAt = some f ∧ f ≤ min bytes.length messageLimit

variable {s : Source} {bytes : Bytes} {failAt : Option Nat} {size fuel : Nat}

/-! ## Pieces -/

theorem cut_nonempty (hsize : 0 < size) : ∀ p ∈ cut size fuel bytes, p ≠ [] := by
  induction fuel generalizing bytes with
  | zero => exact fun p hp => absurd hp List.not_mem_nil
  | succ fuel ih =>
    intro p hp
    unfold cut at hp
    split at hp
    · exact absurd hp List.not_mem_nil
    · rename_i hne
      rcases List.mem_cons.1 hp with rfl | hp
      · rw [Ne, List.take_eq_nil_iff, not_or]
        exact ⟨hsize.ne', by simpa using hne⟩
      · exact ih p hp

theorem flatten_cut (hsize : 0 < size) (hfuel : bytes.length ≤ fuel) :
    (cut size fuel bytes).flatten = bytes := by
  induction fuel generalizing bytes with
  | zero => exact (List.eq_nil_of_length_eq_zero (Nat.le_zero.1 hfuel)).symm
  | succ fuel ih =>
    unfold cut
    split
    · rename_i hnil
      exact (List.isEmpty_iff.1 hnil).symm
    · have hrest : (bytes.drop size).length ≤ fuel := by
        rw [List.length_drop]
        omega
      rw [List.flatten_cons, ih hrest, List.take_append_drop]

theorem pieces_spec (size : Option Nat) (sent : Bytes) :
    let pieces := match size with
      | some k => cut (max k 1) sent.length sent
      | none => if sent.isEmpty then [] else [sent]
    (∀ p ∈ pieces, p ≠ []) ∧ pieces.flatten = sent := by
  cases size with
  | some k =>
    have hpos : 0 < max k 1 := lt_max_of_lt_right one_pos
    exact ⟨cut_nonempty hpos, flatten_cut hpos le_rfl⟩
  | none => cases sent <;> simp

/-- Bytes that are cut to a size, or not at all, are delivered. -/
theorem delivers_ofBytes (bytes : Bytes) (size failAt : Option Nat) :
    (ofBytes bytes size failAt).Delivers bytes failAt := by
  cases failAt with
  | none =>
    obtain ⟨hne, hflat⟩ := pieces_spec size bytes
    exact ⟨hne, hflat.trans (List.take_length ..).symm, by simp [ofBytes]⟩
  | some f =>
    obtain ⟨hne, hflat⟩ := pieces_spec size (bytes.take f)
    exact ⟨hne, hflat, by simp [ofBytes]⟩

end Source

/-! ## What is read -/

/-- What comes of bytes that are all there. -/
def decoded {α : Type} (read : Bytes → Except Fault α) (bytes : Bytes) : Except StreamError α :=
  match read bytes with
  | .ok m => .ok m
  | .error f => .error (.invalid (f.message bytes))

/-- The message is refused for its size. -/
def RefusedForSize {α : Type} (result : Except StreamError α) : Prop :=
  ∃ e, result = .error e ∧ e.IsInvalidData ∧ e.message = StreamError.tooLarge.message

/-- The text does not begin as that of a message refused for its size does. -/
def Apart (text : String) : Prop := text.toList.take 3 ≠ ['i', 'n', 'f'] ∧ 3 ≤ text.toList.length

instance (text : String) : Decidable (Apart text) := inferInstanceAs (Decidable (_ ∧ _))

theorem Apart.append {text : String} (h : Apart text) (more : String) : Apart (text ++ more) := by
  rw [Apart, String.toList_append, List.take_append_of_le_length h.2, List.length_append]
  exact ⟨h.1, h.2.trans (Nat.le_add_right _ _)⟩

theorem apart_mismatch (m : Mismatch) : Apart m.message := by
  cases m with
  | missingMember name => exact Apart.append (by decide) _
  | duplicateMember name => exact Apart.append (by decide) _
  | wrongKind found expected =>
    exact (((show Apart "invalid type: " by decide).append _).append _).append _
  | wrongLength found expected =>
    exact (((show Apart "invalid length " by decide).append _).append _).append _
  | unknownVariant found known =>
    exact (((show Apart "unknown variant " by decide).append _).append _).append _

theorem apart_reason (r : Reason) : Apart r.message := by
  cases r with
  | mismatch m => exact apart_mismatch m
  | _ => decide

theorem apart_fault (f : Fault) (bytes : Bytes) : Apart (f.message bytes) := by
  unfold Fault.message
  split
  · exact ((((apart_reason f.reason).append _).append _).append _).append _
  · exact apart_reason f.reason

/-! ## Both limits -/

section

variable {α : Type} {s : Source} {bytes : Bytes} {failAt : Option Nat}
  {read : Bytes → Except Fault α} {result : Except StreamError α}

theorem not_refusedForSize_decoded : ¬RefusedForSize (decoded read bytes) := by
  rintro ⟨e, he, -, hmessage⟩
  unfold decoded at he
  split at he
  · cases he
  · rename_i f _
    cases he
    have happart : Apart StreamError.tooLarge.message := hmessage ▸ apart_fault f bytes
    exact absurd happart (by decide)

/-- **What is read depends on the bytes and on where the source fails**, not on the pieces. -/
theorem Source.Delivers.readMessage_eq (h : s.Delivers bytes failAt)
    (read : Bytes → Except Fault α) :
    (Breaks bytes failAt → readMessage read s = .error .reset) ∧
      (¬Breaks bytes failAt → readMessage read s =
        if messageLimit < bytes.length then .error .tooLarge else decoded read bytes) := by
  have hall := s.readAll_eq messageLimit
  by_cases hfails : ∃ f, failAt = some f ∧ f ≤ bytes.length
  · obtain ⟨f, rfl, hf⟩ := hfails
    have hlength : s.pieces.flatten.length = f := by
      rw [h.flatten, Option.getD_some, List.length_take, Nat.min_eq_left hf]
    rw [hlength, if_pos (h.fails.2 ⟨f, rfl, hf⟩)] at hall
    constructor
    · rintro ⟨_, heq, hle⟩
      cases heq
      rw [if_neg (Nat.not_lt.2 (hle.trans (Nat.min_le_right _ _)))] at hall
      rw [readMessage, hall]
    · intro hwhole
      have hlong : messageLimit < f := by
        by_contra hle
        exact hwhole ⟨f, rfl, Nat.le_min.2 ⟨hf, Nat.not_lt.1 hle⟩⟩
      rw [if_pos hlong] at hall
      rw [readMessage, hall, if_pos (hlong.trans_le hf)]
  · have hnever : ¬Breaks bytes failAt := by
      rintro ⟨f, heq, hle⟩
      exact hfails ⟨f, heq, hle.trans (Nat.min_le_left _ _)⟩
    have hflatten : s.pieces.flatten = bytes := by
      rw [h.flatten, List.take_of_length_le]
      cases failAt with
      | none => exact le_rfl
      | some f => exact (Nat.lt_of_not_le fun hle => hfails ⟨f, rfl, hle⟩).le
    rw [hflatten, if_neg fun ht => hfails (h.fails.1 ht)] at hall
    refine ⟨fun hb => absurd hb hnever, fun _ => ?_⟩
    rw [readMessage, hall]
    split_ifs
    · rfl
    · rfl

/-- What a message reads as from a source that hands out `bytes` but fails at `failAt`. -/
structure ReadsAs (read : Bytes → Except Fault α) (bytes : Bytes) (failAt : Option Nat)
    (result : Except StreamError α) : Prop where
  broken : result = .error .reset ↔ Source.Breaks bytes failAt
  refused : ¬Source.Breaks bytes failAt → (RefusedForSize result ↔ messageLimit < bytes.length)
  whole : ¬Source.Breaks bytes failAt → bytes.length ≤ messageLimit →
    result = decoded read bytes
  full : bytes.length = messageLimit → ¬RefusedForSize result

theorem Source.Delivers.readsAs (h : s.Delivers bytes failAt) :
    ReadsAs read bytes failAt (readMessage read s) := by
  obtain ⟨hbroken, hwhole⟩ := h.readMessage_eq read
  have hreset : Breaks bytes failAt → ¬RefusedForSize (readMessage read s) := by
    rintro hb ⟨e, he, hinvalid, -⟩
    rw [hbroken hb] at he
    cases he
    exact hinvalid
  have hrefused : ¬Breaks bytes failAt →
      (RefusedForSize (readMessage read s) ↔ messageLimit < bytes.length) := by
    intro hb
    rw [hwhole hb]
    split
    · rename_i hlong
      exact iff_of_true ⟨_, rfl, trivial, rfl⟩ hlong
    · rename_i hshort
      exact iff_of_false not_refusedForSize_decoded hshort
  refine ⟨⟨fun hreset => ?_, hbroken⟩, hrefused, fun hb hle => ?_, fun hfull => ?_⟩
  · by_contra hb
    rw [hwhole hb] at hreset
    split_ifs at hreset
    · cases hreset
    · unfold decoded at hreset
      split at hreset
      · cases hreset
      · cases hreset
  · rw [hwhole hb, if_neg (Nat.not_lt.2 hle)]
  · by_cases hb : Breaks bytes failAt
    · exact hreset hb
    · rw [hrefused hb, hfull]
      exact lt_irrefl _

end

/-- **How a message arrives does not matter, and only so much of it is taken.** Whatever pieces its
bytes come in, a request or a response is broken off if the source fails within the bytes and
within the limit; if not, it is refused for its size beyond the limit, and else read as its bytes
say. Read by read, what is taken is the front of the bytes and never more than one byte beyond the
limit, and where the reads end says what has been read. -/
theorem reading_spec {s : Source} {bytes : Bytes} {failAt : Option Nat}
    (h : s.Delivers bytes failAt) :
    ReadsAs Request.read bytes failAt (readMessage Request.read s) ∧
    ReadsAs Response.read bytes failAt (readMessage Response.read s) ∧
    (∃ r, Source.Pulls (s.reader messageLimit) r ∧ r.Done) ∧
    ∀ r, Source.Pulls (s.reader messageLimit) r →
      r.bytes <+: bytes ∧ r.bytes.length ≤ messageLimit + 1 ∧
        (r.Done → s.readAll messageLimit = r.outcome s.fails) := by
  refine ⟨h.readsAs, h.readsAs, Source.exists_done _, fun r hr => ?_⟩
  obtain ⟨hbytes, hroom, -⟩ := Source.Pulls.spec hr
  have hfront : r.bytes <+: s.pieces.flatten := ⟨_, hbytes⟩
  rw [h.flatten] at hfront
  refine ⟨hfront.trans (List.take_prefix _ _), by omega, fun hdone => ?_⟩
  exact Source.Pulls.readAll_eq hr hdone

/-- Blanks, cut into pieces: as many as the limit allows are not refused for their number, one more
are, even if the source fails right behind them, and a failure at the limit comes first. -/
theorem reading_spec_blanks :
    let blanks (n : Nat) := List.replicate n Ascii.space
    (∀ n failAt, (Source.ofBytes (blanks n) (some 1000) failAt).Delivers (blanks n) failAt) ∧
    ¬RefusedForSize (readMessage Request.read
      (Source.ofBytes (blanks messageLimit) (some 1000) none)) ∧
    RefusedForSize (readMessage Response.read (Source.ofBytes (blanks (messageLimit + 1))
      (some 1000) (some (messageLimit + 1)))) ∧
    readMessage Response.read (Source.ofBytes (blanks (messageLimit + 1)) (some 1000)
      (some messageLimit)) = .error .reset := by
  intro blanks
  have hlength (n : Nat) : (blanks n).length = n := List.length_replicate
  have hdelivers (n : Nat) (failAt : Option Nat) :=
    Source.delivers_ofBytes (blanks n) (some 1000) failAt
  refine ⟨hdelivers, (reading_spec (hdelivers _ none)).1.full (hlength _), ?_, ?_⟩
  · have hwhole : ¬Source.Breaks (blanks (messageLimit + 1)) (some (messageLimit + 1)) := by
      rintro ⟨f, heq, hle⟩
      cases heq
      exact absurd (hle.trans (Nat.min_le_right _ _)) (Nat.not_succ_le_self _)
    refine ((reading_spec (hdelivers _ _)).2.1.refused hwhole).2 ?_
    rw [hlength]
    exact Nat.lt_succ_self _
  · refine (reading_spec (hdelivers _ _)).2.1.broken.2 ⟨messageLimit, rfl, ?_⟩
    rw [hlength]
    exact Nat.le_min.2 ⟨Nat.le_succ _, le_rfl⟩

end Quorum
