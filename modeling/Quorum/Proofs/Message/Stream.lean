import Mathlib
import Quorum.Message.Stream

/-!
# What passes through a stream

A sink that does not fail takes a message whole, however little it takes with each write
(`send_eq`). A reading takes what a source has read by read (`Pull`), never more than it has room
for, and where it ends says what it comes to (`Pulls.readAll_eq`); so it depends on the bytes of
the source alone, in whatever pieces they come (`readAll_eq`). With a sink and a source that do not
fail, what is read depends on the bytes of the message alone (`Conveys.readMessage_eq`).
-/

namespace Quorum

/-! ## Writing -/

namespace Sink

variable {k : Sink}

/-- A write takes something, and no more than there is. -/
theorem accept_of_whole (h : k.failAt = none) (taken left : Nat) (hleft : 0 < left) :
    ∃ n, k.accept taken left = some n ∧ 0 < n ∧ n ≤ left := by
  refine ⟨min left (max (k.size.getD left) 1), ?_, by omega, by omega⟩
  unfold accept
  rw [h]
  dsimp only
  rw [if_neg hleft.ne', Nat.min_self]

theorem writeAll_eq (h : k.failAt = none) : ∀ (fuel taken : Nat) (acc left : Bytes),
    left.length < fuel → k.writeAll fuel taken acc left = (left.reverse ++ acc, none)
  | fuel + 1, taken, acc, left, hfuel => by
    unfold writeAll
    cases left with
    | nil => rfl
    | cons b left =>
      obtain ⟨n, hn, hpos, hle⟩ := accept_of_whole h taken (b :: left).length
        (Nat.succ_pos _)
      have hlength : ((b :: left).drop n).length < fuel := by
        rw [List.length_drop]
        omega
      have hwhole : ((b :: left).drop n).reverse ++ ((b :: left).take n).reverse =
          (b :: left).reverse := by
        rw [← List.reverse_append, List.take_append_drop]
      rw [hn]
      simp only [List.isEmpty_cons, Bool.false_eq_true, ↓reduceIte]
      rw [writeAll_eq h fuel _ _ _ hlength, ← List.append_assoc, hwhole]

/-- **A sink that does not fail takes the whole message.** -/
theorem send_eq (h : k.failAt = none) (hclose : k.failClose = false) (message : String) :
    k.send message = (Utf8.encode message, none) := by
  unfold send
  dsimp only
  rw [writeAll_eq h _ _ _ _ (Nat.lt_succ_self _), hclose]
  simp

end Sink

/-! ## Reading -/

namespace Source

/-- A reading under way: the room that is left, the pieces taken, latest first, and those that
the source still has. -/
structure Reader where
  room : Nat
  taken : List Bytes
  left : List Bytes

namespace Reader

/-- The bytes taken so far. -/
def bytes (r : Reader) : Bytes := r.taken.reverse.flatten

/-- There is no room for more, or the source has nothing more. -/
def Done (r : Reader) : Prop := r.room = 0 ∨ r.left = []

/-- What a reading that is done comes to. -/
def outcome (fails : Bool) (r : Reader) : Except StreamError Bytes :=
  if r.room = 0 then .error .tooLarge else if fails then .error .reset else .ok r.bytes

end Reader

/-- A reading before its first read; it has room for one byte beyond the limit. -/
def reader (limit : Nat) (s : Source) : Reader := ⟨limit + 1, [], s.pieces⟩

/-- One read. -/
inductive Pull : Reader → Reader → Prop where
  /-- There is room for the next piece. -/
  | whole {room : Nat} {taken : List Bytes} {p : Bytes} {left : List Bytes} (hroom : 0 < room)
      (h : p.length ≤ room) :
      Pull ⟨room, taken, p :: left⟩ ⟨room - p.length, p :: taken, left⟩
  /-- There is room for a part of it only, and the rest stays where it is. -/
  | part {room : Nat} {taken : List Bytes} {p : Bytes} {left : List Bytes} (hroom : 0 < room)
      (h : room < p.length) :
      Pull ⟨room, taken, p :: left⟩ ⟨0, p.take room :: taken, p.drop room :: left⟩

/-- Any number of reads. -/
abbrev Pulls : Reader → Reader → Prop := Relation.ReflTransGen Pull

variable {r r' : Reader} {s : Source} {limit : Nat}

/-- A read loses no byte and doubles none. -/
theorem Pull.bytes_eq (h : Pull r r') :
    r'.bytes ++ r'.left.flatten = r.bytes ++ r.left.flatten := by
  cases h with
  | whole hroom h => simp [Reader.bytes]
  | part hroom h => simp [Reader.bytes, List.append_assoc, ← List.append_assoc (List.take _ _)]

theorem Pull.room_eq (h : Pull r r') : r'.bytes.length + r'.room = r.bytes.length + r.room := by
  cases h with
  | whole hroom h =>
    simp only [Reader.bytes, List.reverse_cons, List.flatten_append, List.flatten_singleton,
      List.length_append]
    omega
  | part hroom h =>
    simp only [Reader.bytes, List.reverse_cons, List.flatten_append, List.flatten_singleton,
      List.length_append, List.length_take]
    omega

/-- A read is a step of `takeUpTo`. -/
theorem Pull.takeUpTo_eq (h : Pull r r') (fails : Bool) :
    takeUpTo fails r.room r.taken r.left = takeUpTo fails r'.room r'.taken r'.left := by
  cases h with
  | whole hroom h =>
    obtain ⟨room, rfl⟩ := Nat.exists_eq_succ_of_ne_zero hroom.ne'
    rw [takeUpTo, List.take_of_length_le h]
  | @part room taken p left hroom h =>
    obtain ⟨room, rfl⟩ := Nat.exists_eq_succ_of_ne_zero hroom.ne'
    have hnone : room + 1 - p.length = 0 := Nat.sub_eq_zero_of_le (Nat.le_of_lt h)
    dsimp only
    rw [takeUpTo, takeUpTo, hnone, takeUpTo]

/-- **What is taken is the front of what the source has**, and the room shrinks by it. -/
theorem Pulls.spec (h : Pulls (s.reader limit) r) :
    r.bytes ++ r.left.flatten = s.pieces.flatten ∧ r.bytes.length + r.room = limit + 1 ∧
      ∀ fails, takeUpTo fails (limit + 1) [] s.pieces = takeUpTo fails r.room r.taken r.left := by
  induction h with
  | refl => exact ⟨rfl, Nat.zero_add _, fun _ => rfl⟩
  | tail _ hpull ih =>
    obtain ⟨hbytes, hroom, htake⟩ := ih
    exact ⟨hpull.bytes_eq.trans hbytes, hpull.room_eq.trans hroom,
      fun fails => (htake fails).trans (hpull.takeUpTo_eq fails)⟩

/-- Every reading comes to an end. -/
theorem exists_done (r : Reader) : ∃ r', Pulls r r' ∧ r'.Done := by
  obtain ⟨room, taken, left⟩ := r
  induction left generalizing room taken with
  | nil => exact ⟨_, .refl, .inr rfl⟩
  | cons p left ih =>
    rcases Nat.eq_zero_or_pos room with rfl | hroom
    · exact ⟨_, .refl, .inl rfl⟩
    rcases Nat.lt_or_ge room p.length with h | h
    · exact ⟨_, .single (.part hroom h), .inl rfl⟩
    · obtain ⟨r', hpulls, hdone⟩ := ih (room - p.length) (p :: taken)
      exact ⟨r', hpulls.head (.whole hroom h), hdone⟩

/-- What a reading comes to is read off where it ends. -/
theorem Pulls.readAll_eq (h : Pulls (s.reader limit) r) (hdone : r.Done) :
    s.readAll limit = r.outcome s.fails := by
  obtain ⟨-, hroom, htake⟩ := h.spec
  unfold readAll Reader.outcome
  rw [htake s.fails]
  rcases Nat.eq_zero_or_pos r.room with hfull | hpos
  · have hlong : limit < r.bytes.length := by omega
    rw [hfull, takeUpTo, if_pos rfl]
    exact if_pos hlong
  · obtain ⟨room, hsucc⟩ := Nat.exists_eq_succ_of_ne_zero hpos.ne'
    have hshort : ¬limit < r.bytes.length := by omega
    rw [hdone.resolve_left hpos.ne', hsucc, takeUpTo, if_neg (Nat.succ_ne_zero room)]
    cases s.fails with
    | true => rfl
    | false => exact if_neg hshort

/-- **A source hands out everything, up to the limit.** Whether it fails behind that shows only if
it comes to its end. -/
theorem readAll_eq (s : Source) (limit : Nat) :
    s.readAll limit =
      if limit < s.pieces.flatten.length then .error .tooLarge
      else if s.fails then .error .reset else .ok s.pieces.flatten := by
  obtain ⟨r, hpulls, hdone⟩ := exists_done (s.reader limit)
  obtain ⟨hbytes, hroom, -⟩ := Pulls.spec hpulls
  rw [Pulls.readAll_eq hpulls hdone, Reader.outcome, ← hbytes, List.length_append]
  by_cases hfull : r.room = 0
  · have hlong : limit < r.bytes.length + r.left.flatten.length := by omega
    rw [if_pos hfull, if_pos hlong]
  · have hshort : ¬limit < r.bytes.length + 0 := by omega
    rw [if_neg hfull, hdone.resolve_left hfull, List.flatten_nil, List.append_nil,
      List.length_nil, if_neg hshort]

end Source

/-! ## Both ends -/

/-- Nothing breaks on the way, and the source hands out what the sink took of the text. -/
structure Conveys (k : Sink) (s : Source) (text : String) : Prop where
  takes : k.failAt = none
  closes : k.failClose = false
  ends : s.fails = false
  bytes : s.pieces.flatten = (k.send text).1

namespace Conveys

variable {k : Sink} {s : Source} {text : String}

theorem sent (h : Conveys k s text) : (k.send text).2 = none := by
  rw [Sink.send_eq h.takes h.closes]

/-- **What is read depends on the bytes of the text alone.** -/
theorem readMessage_eq {α : Type} (h : Conveys k s text) (read : Bytes → Except Json.Fault α) :
    readMessage read s =
      if messageLimit < (Utf8.encode text).length then .error .tooLarge
      else match read (Utf8.encode text) with
        | .ok m => .ok m
        | .error f => .error (.invalid (f.message (Utf8.encode text))) := by
  have hbytes : s.pieces.flatten = Utf8.encode text := by
    rw [h.bytes, Sink.send_eq h.takes h.closes]
  have hall := s.readAll_eq messageLimit
  rw [hbytes, h.ends] at hall
  by_cases hlimit : messageLimit < (Utf8.encode text).length
  · simp only [readMessage, hall, hlimit, ↓reduceIte]
  · cases hread : read (Utf8.encode text) <;>
      simp only [readMessage, hall, hlimit, hread, Bool.false_eq_true, ↓reduceIte]

end Conveys

end Quorum
