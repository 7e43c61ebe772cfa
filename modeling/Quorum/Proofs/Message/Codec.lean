import Mathlib
import Quorum.Proofs.Message.RoundTrip
import Quorum.Proofs.Message.Stream

/-!
# What is sent is what arrives

A message that a stream conveys is read back within two limits, on the length of its text and on
the depth of its payload, and refused as invalid data beyond either of them (`Arrives`,
`roundTrip_spec`).
-/

namespace Quorum

open Json Ascii

/-- The message is at fault, not the stream. -/
def StreamError.IsInvalidData : StreamError → Prop
  | tooLarge | invalid _ => True
  | reset | closeFailed => False

/-- What is read is `m` if its text has at most `messageLimit` bytes and its payload at most 126
arrays and objects inside one another; if not, the message is refused. -/
def Arrives {α : Type} (m : α) (text : String) (payload : Json)
    (result : Except StreamError α) : Prop :=
  if (Utf8.encode text).length ≤ messageLimit ∧ payload.depth ≤ 126 then result = .ok m
  else ∃ e, result = .error e ∧ e.IsInvalidData

theorem Conveys.arrives {α : Type} {k : Sink} {s : Source} {text : String} {payload : Json}
    {m : α} {read : Bytes → Except Fault α} (h : Conveys k s text)
    (hread : (payload.depth ≤ 126 → read (Utf8.encode text) = .ok m) ∧
      (126 < payload.depth → ∃ f, read (Utf8.encode text) = .error f)) :
    Arrives m text payload (readMessage read s) := by
  unfold Arrives
  rw [h.readMessage_eq]
  by_cases hlong : messageLimit < (Utf8.encode text).length
  · rw [if_neg (fun hfits => absurd hfits.1 (Nat.not_le.2 hlong)), if_pos hlong]
    exact ⟨_, rfl, trivial⟩
  · rw [if_neg hlong]
    by_cases hdeep : 126 < payload.depth
    · obtain ⟨f, hf⟩ := hread.2 hdeep
      rw [if_neg (fun hfits => absurd hfits.2 (Nat.not_le.2 hdeep)), hf]
      exact ⟨_, rfl, trivial⟩
    · rw [if_pos ⟨Nat.not_lt.1 hlong, Nat.not_lt.1 hdeep⟩, hread.1 (Nat.not_lt.1 hdeep)]

theorem Conveys.read_ok {α : Type} {k : Sink} {s : Source} {text : String} {m : α}
    {read : Bytes → Except Fault α} (h : Conveys k s text) (hm : readMessage read s = .ok m) :
    read (Utf8.encode text) = .ok m := by
  rw [h.readMessage_eq] at hm
  split at hm
  · cases hm
  · split at hm
    · cases hm
      assumption
    · cases hm

/-- A sink that takes three bytes at a time, and a source that hands them out in two pieces. -/
def slowSink : Sink := ⟨some 3, none, false⟩

def inTwoPieces (text : String) : Source :=
  ⟨[(slowSink.send text).1.take 7, (slowSink.send text).1.drop 7], false⟩

theorem conveys_inTwoPieces (text : String) : Conveys slowSink (inTwoPieces text) text where
  takes := rfl
  closes := rfl
  ends := rfl
  bytes := by simp [inTwoPieces]

/-- Lists inside one another. -/
def nested : Nat → Json
  | 0 => .null
  | n + 1 => .array [nested n]

theorem nested_spec (n : Nat) :
    Valid (nested n) ∧ (nested n).doubles = [] ∧ (nested n).depth = n := by
  induction n with
  | zero => exact ⟨trivial, rfl, rfl⟩
  | succ n ih =>
    obtain ⟨hv, hx, hd⟩ := ih
    refine ⟨⟨hv, trivial⟩, ?_, ?_⟩
    · simp [nested, doubles, doublesItems, hx]
    · simp [nested, Json.depth, depthItems, hd]

/-- Escapes, a character beyond ASCII, a double and nested values. -/
def halfRequest : Request :=
  ⟨"\"1\"\n", "mod\u00e8le", .object [("bias", .double ⟨0x3FE0000000000000⟩),
    ("pixels", .array [.integer (-1), .object [], .bool true])]⟩

theorem readsBack_half : ReadsBack ⟨0x3FE0000000000000⟩ := by
  have htext : Utf8.encode (double ⟨0x3FE0000000000000⟩).render = [digit0, dot, 0x35] := by rfl
  have hread : value 8 depthLimit [digit0, dot, 0x35] =
      .ok (double ⟨0x3FE0000000000000⟩, []) := by
    show scaled false 5 (-1) [] = _
    rw [scaled, scale]
    rfl
  rw [ReadsBack, htext, Json.read, Json.readFront]
  show (value 8 depthLimit [digit0, dot, 0x35]).bind _ = _
  rw [hread]
  rfl

end Quorum
