import Mathlib
import Quorum.Proofs.Json.Taken
import Quorum.Proofs.Message.Reading

/-!
# Truncated messages

A sender writes a message piece by piece, as much as the sink takes with each write (`Sink.Push`),
and may stop anywhere. What the sink has taken is then a front of the message, and the sender knows
whether it is all of it (`Sink.Sends.truthful`). A message is an object, so every proper front of it
has a bracket open, and nothing that is read has (`Request.wellNested_of_read`,
`Response.wellNested_of_read`). So no reader takes a truncated message for a message
(`truncation_spec`).
-/

namespace Quorum

open Json Ascii

/-! ## Writing -/

namespace Sink

/-- A message on its way into a sink: the bytes taken so far and those left to write. -/
structure Writer where
  taken : Bytes
  left : Bytes

/-- One write; the sink takes something of what is left. -/
inductive Push : Writer → Writer → Prop where
  | take {taken now left : Bytes} (h : now ≠ []) :
      Push ⟨taken, now ++ left⟩ ⟨taken ++ now, left⟩

/-- Any number of writes. -/
abbrev Pushes : Writer → Writer → Prop := Relation.ReflTransGen Push

/-- What the sink has taken of `bytes` when the sender is done, and what it tells. -/
inductive Sends (bytes : Bytes) (closes : Bool) : Bytes × Option StreamError → Prop where
  | sent {wire : Bytes} (h : Pushes ⟨[], bytes⟩ ⟨wire, []⟩) (hcloses : closes = true) :
      Sends bytes closes (wire, none)
  | unclosed {wire : Bytes} (h : Pushes ⟨[], bytes⟩ ⟨wire, []⟩) (hcloses : closes = false) :
      Sends bytes closes (wire, some .closeFailed)
  /-- A write fails while something is left. -/
  | broken {wire left : Bytes} (h : Pushes ⟨[], bytes⟩ ⟨wire, left⟩) (hleft : left ≠ []) :
      Sends bytes closes (wire, some .reset)

variable {w w' : Writer} {bytes : Bytes} {closes : Bool}

/-- A write loses no byte and doubles none. -/
theorem Push.bytes_eq (h : Push w w') : w'.taken ++ w'.left = w.taken ++ w.left := by
  cases h
  exact List.append_assoc _ _ _

theorem Pushes.bytes_eq (h : Pushes w w') : w'.taken ++ w'.left = w.taken ++ w.left := by
  induction h with
  | refl => rfl
  | tail _ hpush ih => exact hpush.bytes_eq.trans ih

/-- What a sender tells is right: that all went well, or that the sink does not have it all. -/
structure Truthful (bytes : Bytes) (closes : Bool) (result : Bytes × Option StreamError) :
    Prop where
  front : result.1 <+: bytes
  whole : result.2 = none ↔ result.1 = bytes ∧ closes = true
  broken : result.2 = some .reset ↔ result.1 ≠ bytes

theorem Sends.truthful {result : Bytes × Option StreamError} (h : Sends bytes closes result) :
    Truthful bytes closes result := by
  cases h with
  | @sent wire h hcloses =>
    obtain rfl : wire = bytes := by simpa using h.bytes_eq
    exact ⟨List.prefix_rfl, by simp [hcloses], by simp⟩
  | @unclosed wire h hcloses =>
    obtain rfl : wire = bytes := by simpa using h.bytes_eq
    exact ⟨List.prefix_rfl, by simp [hcloses], by simp⟩
  | @broken wire left h hleft =>
    have hbytes : wire ++ left = bytes := h.bytes_eq
    have hne : wire ≠ bytes := by
      intro heq
      exact hleft (List.append_right_eq_self.1 (hbytes.trans heq.symm))
    exact ⟨⟨left, hbytes⟩, by simp [hne], by simp [hne]⟩

variable {k : Sink}

theorem accept_spec {taken left n : Nat} (h : k.accept taken left = some n) (hleft : 0 < left) :
    0 < n ∧ n ≤ left := by
  simp only [accept, Option.ite_none_left_eq_some, Option.some.injEq] at h
  omega

/-- A sink takes the next bytes of what is left. -/
theorem Push.next {taken left : Bytes} {n : Nat} (hn : 0 < n) (hleft : left ≠ []) :
    Push ⟨taken, left⟩ ⟨taken ++ left.take n, left.drop n⟩ := by
  have hnow : left.take n ≠ [] := by
    rw [Ne, List.take_eq_nil_iff, not_or]
    exact ⟨hn.ne', hleft⟩
  have hpush := @Push.take taken _ (left.drop n) hnow
  rwa [List.take_append_drop] at hpush

/-- Writing goes on from where it stands until nothing is left or a write fails. -/
theorem writeAll_spec (k : Sink) (fuel taken : Nat) (acc left : Bytes)
    (hfuel : left.length < fuel) :
    ∃ rest, Pushes ⟨acc.reverse, left⟩ ⟨(k.writeAll fuel taken acc left).1.reverse, rest⟩ ∧
      ((k.writeAll fuel taken acc left).2 = none ∧ rest = [] ∨
        (k.writeAll fuel taken acc left).2 = some .reset ∧ rest ≠ []) := by
  induction fuel generalizing taken acc left with
  | zero => omega
  | succ fuel ih =>
    unfold writeAll
    split
    · rename_i hnil
      exact ⟨left, .refl, .inl ⟨rfl, List.isEmpty_iff.1 hnil⟩⟩
    rename_i hleft
    rw [List.isEmpty_iff] at hleft
    cases haccept : k.accept taken left.length with
    | none => exact ⟨left, .refl, .inr ⟨rfl, hleft⟩⟩
    | some n =>
      obtain ⟨hpos, hle⟩ := accept_spec haccept (List.length_pos_iff.2 hleft)
      have hlength : (left.drop n).length < fuel := by
        rw [List.length_drop]
        omega
      obtain ⟨rest, hpushes, hrest⟩ :=
        ih (taken + n) ((left.take n).reverse ++ acc) (left.drop n) hlength
      rw [List.reverse_append, List.reverse_reverse] at hpushes
      exact ⟨rest, hpushes.head (.next hpos hleft), hrest⟩

/-- **A sink makes a sender of any text.** -/
theorem sends_send (k : Sink) (text : String) :
    Sends (Utf8.encode text) (!k.failClose) (k.send text) := by
  obtain ⟨rest, hpushes, hrest⟩ := k.writeAll_spec ((Utf8.encode text).length + 1) 0 []
    (Utf8.encode text) (Nat.lt_succ_self _)
  unfold send
  dsimp only
  generalize k.writeAll ((Utf8.encode text).length + 1) 0 [] (Utf8.encode text) = r
    at hpushes hrest ⊢
  obtain ⟨taken, error⟩ := r
  dsimp only at hpushes hrest ⊢
  obtain ⟨rfl, rfl⟩ | ⟨rfl, hne⟩ := hrest
  · cases hclose : k.failClose with
    | false => exact .sent hpushes rfl
    | true => exact .unclosed hpushes rfl
  · exact .broken hpushes hne

end Sink

/-! ## Reading -/

theorem Request.wellNested_of_read {r : Request} {s : Bytes}
    (h : Request.read (openBrace :: s) = .ok r) : WellNested (openBrace :: s) := by
  unfold Request.read at h
  rw [Shape.readFront, skipBlank_cons (by decide)] at h
  dsimp only at h
  rw [if_pos rfl] at h
  split at h
  · cases h
  rename_i values rest hfront
  have htaken := (Passes.opening (.inr rfl) 0 s).trans
    (Request.shape.readMembers_takes _ _ _ _ _ values rest hfront)
  cases hmore : nothingMore rest with
  | error f =>
    rw [hmore] at h
    cases h
  | ok => exact wellNested_of_passes htaken hmore

namespace Response

theorem Variant.read_takes (fuel : Nat) (s : Bytes) : Takes 0 0 s (Variant.read fuel s) := by
  unfold Variant.read
  split
  · exact .error _
  · rename_i found rest h
    have hs : Passes 0 0 s rest := expectText_takes _ fuel s found rest h
    exact .ite (.ok hs) (.ite (.ok hs) (.error _))

/-- What is read as the members of a response ends with the brace that closes it. -/
theorem readMembers_takes (fuel : Nat) (first : Bool) (kind : Option Variant)
    (acc : List (String × Json)) (s : Bytes) : Takes 1 0 s (readMembers fuel first kind acc s) := by
  induction fuel generalizing first kind acc s with
  | zero => exact .error _
  | succ fuel ih =>
    unfold readMembers
    split
    · exact .error _
    · rename_i rest hnext
      split
      · exact .ok (nextName_passes hnext 0)
      · exact .error _
    · rename_i rest hnext
      split
      · exact .error _
      rename_i name t hname
      split
      · refine .ite (.error _) ?_
        split
        · exact .error _
        rename_i u hcolon
        split
        · exact .error _
        rename_i found w hfound
        exact (ih false (some found) acc w).behind
          (member_passes hnext hname hcolon (Variant.read_takes fuel u found w hfound))
      · split
        · exact .error _
        rename_i u hcolon
        split
        · exact .error _
        rename_i v w hv
        exact (ih false kind _ w).behind
          (member_passes hnext hname hcolon (value_takes fuel _ u v w hv))

theorem wellNested_of_read {r : Response} {s : Bytes} (h : read (openBrace :: s) = .ok r) :
    WellNested (openBrace :: s) := by
  unfold read at h
  rw [readWhole, skipBlank_cons (by decide)] at h
  dsimp only at h
  rw [if_pos rfl] at h
  split at h
  · cases h
  rename_i whole rest hwhole
  have htaken := (Passes.opening (.inr rfl) 0 s).trans
    (readMembers_takes _ _ _ _ _ whole rest hwhole)
  split at h
  · cases h
  cases hmore : nothingMore rest with
  | error f =>
    rw [hmore] at h
    cases h
  | ok => exact wellNested_of_passes htaken hmore

end Response

/-! ## Messages -/

/-- What peers send to one another. -/
inductive Message where
  | request (m : Request)
  | response (m : Response)

namespace Message

def render : Message → String
  | request m => m.render
  | response m => m.render

def bytes (m : Message) : Bytes := Utf8.encode m.render

/-- A message is an object with a member. -/
theorem exists_members (m : Message) :
    ∃ name v ms, m.bytes = valueBytes (.object ((name, v) :: ms)) := by
  cases m with
  | request m => exact ⟨_, _, _, m.encode_render⟩
  | response m => exact ⟨_, _, _, m.encode_render⟩

/-- Wherever a message is cut off, something of it is open. -/
theorem not_wellNested {m : Message} {p : Bytes} (h : p <+: m.bytes) (hne : p ≠ m.bytes)
    (hp : p ≠ []) : (∃ s, p = openBrace :: s) ∧ ¬WellNested p := by
  obtain ⟨name, v, ms, hbytes⟩ := m.exists_members
  obtain ⟨q, hq⟩ := h
  obtain ⟨b, s, rfl⟩ := List.exists_cons_of_ne_nil hp
  have hrest : q ≠ [] := by
    intro hnil
    rw [hnil, List.append_nil] at hq
    exact hne hq
  rw [hbytes, valueBytes_object, ← List.append_assoc, ← List.cons_append] at hq
  obtain rfl : b = openBrace := (List.cons.inj hq).1
  have hinside : WellNested (quote :: memberBytes name v ++ membersBytes ms) :=
    (wellNested_member (wellNested_valueBytes v)).append (wellNested_membersBytes ms)
  obtain ⟨a, ha, hopened⟩ := exists_opened (.inr rfl) hinside hq hrest
  refine ⟨⟨s, rfl⟩, fun hnested => ?_⟩
  rw [WellNested, ha] at hnested
  cases hnested
  exact absurd hopened (Nat.lt_irrefl 0)

/-- **No front of a message is read**, neither as a request nor as a response. -/
theorem unread {m : Message} {p : Bytes} (h : p <+: m.bytes) (hne : p ≠ m.bytes) :
    (∃ f, Request.read p = .error f) ∧ ∃ f, Response.read p = .error f := by
  rcases eq_or_ne p [] with rfl | hp
  · exact ⟨⟨_, rfl⟩, ⟨_, rfl⟩⟩
  obtain ⟨⟨s, rfl⟩, hopen⟩ := not_wellNested h hne hp
  constructor
  · cases hread : Request.read (openBrace :: s) with
    | error f => exact ⟨f, rfl⟩
    | ok r => exact absurd (Request.wellNested_of_read hread) hopen
  · cases hread : Response.read (openBrace :: s) with
    | error f => exact ⟨f, rfl⟩
    | ok r => exact absurd (Response.wellNested_of_read hread) hopen

end Message

/-! ## Both ends -/

/-- The message that a reader got is at fault. -/
def Refused {α : Type} (result : Except StreamError α) : Prop :=
  ∃ e, result = .error e ∧ e.IsInvalidData

theorem Source.Delivers.refused {α : Type} {s : Source} {p : Bytes} (h : s.Delivers p none)
    {read : Bytes → Except Fault α} (hread : ∃ f, read p = .error f) :
    Refused (readMessage read s) := by
  have hunbroken : ¬Source.Breaks p none := by
    rintro ⟨f, hf, -⟩
    cases hf
  rw [(h.readMessage_eq read).2 hunbroken]
  split
  · exact ⟨_, rfl, trivial⟩
  · obtain ⟨f, hf⟩ := hread
    rw [decoded, hf]
    exact ⟨_, rfl, trivial⟩

/-- **A truncated message is never taken for a message.** However much a sink takes with each
write, wherever a write fails and whether or not the sink can be closed: what it has taken of a
message is a front of it, and the sender is told that all went well exactly if the sink took all
of it and was closed. Whatever is missing of it, a reader that gets the rest, in any pieces,
refuses it as invalid data, be it for a request or for a response. -/
theorem truncation_spec (m : Message) :
    (∀ k : Sink, Sink.Truthful m.bytes (!k.failClose) (k.send m.render)) ∧
    (∀ closes result, Sink.Sends m.bytes closes result → Sink.Truthful m.bytes closes result) ∧
    (∀ w, Sink.Pushes ⟨[], m.bytes⟩ w → w.taken ++ w.left = m.bytes) ∧
    ∀ p, p <+: m.bytes → p ≠ m.bytes → ∀ s : Source, s.Delivers p none →
      Refused (readMessage Request.read s) ∧ Refused (readMessage Response.read s) := by
  refine ⟨fun k => (k.sends_send m.render).truthful, fun closes result h => h.truthful,
    fun w hw => hw.bytes_eq, fun p hp hne s hs => ?_⟩
  obtain ⟨hrequest, hresponse⟩ := Message.unread hp hne
  exact ⟨hs.refused hrequest, hs.refused hresponse⟩

/-- A sink that takes three bytes at a time and breaks after ten: what it has is refused. With one
that does not break, all is well. -/
theorem truncation_spec_half :
    let m := Message.request halfRequest
    let k : Sink := ⟨some 3, some 10, false⟩
    let s := Source.ofBytes (m.bytes.take 10) (some 4) none
    k.send m.render = (m.bytes.take 10, some .reset) ∧
      Refused (readMessage Request.read s) ∧ Refused (readMessage Response.read s) ∧
      slowSink.send m.render = (m.bytes, none) := by
  intro m k s
  obtain ⟨htruthful, -, -, hrefused⟩ := truncation_spec m
  have hbytes : m.bytes = valueBytes (.object halfRequest.members) := halfRequest.encode_render
  have hsend : k.send m.render = (m.bytes.take 10, some .reset) := by
    rw [Sink.send, ← Message.bytes, hbytes]
    decide +kernel
  have hslow : slowSink.send m.render = (m.bytes, none) := Sink.send_eq rfl rfl m.render
  have hne : m.bytes.take 10 ≠ m.bytes := by
    have hbroken := (htruthful k).broken.1
    rw [hsend] at hbroken
    exact hbroken rfl
  obtain ⟨hrequest, hresponse⟩ :=
    hrefused _ (List.take_prefix 10 m.bytes) hne s (Source.delivers_ofBytes _ (some 4) none)
  exact ⟨hsend, hrequest, hresponse, hslow⟩

end Quorum
