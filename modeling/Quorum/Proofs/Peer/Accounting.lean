import Mathlib
import Quorum.Proofs.Peer.Recency

/-!
# Where the peers of a set go

Along the set the times decrease, so what a pruning removes is a tail of it
(`sightings_eq_append`), and popping the stale peers one by one comes to the same
(`foldl_pop_stale`). An insertion drives out the peer at the back if it is of a new peer and the set
is full, and nobody otherwise (`evicted_insert`). So whoever came in as new is still there, was
driven out or was pruned, and what the calls of a run answer adds up (`size_run`,
`accounting_spec`).
-/

namespace Quorum.PeerSet

/-- A call of a run, on the set as it finds it. -/
structure Turn where
  before : PeerSet
  now : Time
  call : Call

/-- The calls of a run, in their order. -/
def turns (s : PeerSet) : List (Time × Call) → List Turn
  | [] => []
  | (now, c) :: rest => ⟨s, now, c⟩ :: (s.call now c).2.turns rest

namespace Turn

variable (v : Turn)

def answer : Answer := (v.before.call v.now v.call).1

def after : PeerSet := (v.before.call v.now v.call).2

/-- Whether the call is an insertion that was told that its peer is new. -/
def admits : Bool := v.call.inserted?.isSome && v.answer == .truth true

/-- The peers that an insertion drives out. -/
def evicted : List PeerId :=
  if v.call.inserted?.isSome then v.before.peers.filter fun p => !v.after.contains p else []

/-- What a pruning answers. -/
def pruned : Nat :=
  match v.call, v.answer with
  | .prune _, .count n => n
  | _, _ => 0

end Turn

/-- Takes out a peer; the others keep their order. -/
def pop (s : PeerSet) (p : PeerId) : PeerSet :=
  { s with sightings := s.sightings.filter (·.peer != p) }

/-- The peers that a pruning finds too old. -/
def stale (s : PeerSet) (ttl now : Time) : List PeerId :=
  (s.sightings.filter (isStale ttl now)).map (·.peer)

variable {s : PeerSet} {calls : List (Time × Call)} {p q : PeerId} {now ttl : Time}

theorem answers_eq_map_turns (s : PeerSet) (calls : List (Time × Call)) :
    s.answers calls = (s.turns calls).map Turn.answer := by
  induction calls generalizing s with
  | nil => rfl
  | cons c rest ih =>
    rw [answers, turns, List.map_cons, ih]
    rfl

/-! ## Pruning -/

theorem isStale_iff {e : Sighting} : isStale ttl now e = true ↔ ttl < now - e.seen := by
  simp [isStale]

theorem isStale_eq_false_iff {e : Sighting} : isStale ttl now e = false ↔ now - e.seen ≤ ttl := by
  simp [isStale]

/-- What a property keeps that only a tail lacks stands in front of that tail. -/
theorem filter_append_filter_not {α : Type} {keep : α → Bool} {l : List α}
    (h : l.Pairwise fun a b => keep b = true → keep a = true) :
    l.filter keep ++ l.filter (fun a => !keep a) = l := by
  induction l with
  | nil => rfl
  | cons a l ih =>
    rw [List.pairwise_cons] at h
    by_cases ha : keep a = true
    · rw [List.filter_cons_of_pos ha, List.filter_cons_of_neg (by simp [ha]), List.cons_append,
        ih h.2]
    · have hnone : ∀ b ∈ l, ¬ keep b = true := fun b hb hkb => ha (h.1 b hb hkb)
      rw [List.filter_cons_of_neg ha, List.filter_eq_nil_iff.2 hnone, List.nil_append,
        List.filter_eq_self.2]
      intro b hb
      rcases List.mem_cons.1 hb with rfl | hb
      · simpa using ha
      · simpa using hnone b hb

/-- **A pruning removes a tail.** -/
theorem sightings_eq_append (h : s.sightings.Pairwise fun a b => b.seen ≤ a.seen)
    (ttl now : Time) :
    s.sightings = (s.prune ttl now).sightings ++ s.sightings.filter (isStale ttl now) := by
  have hkeep : s.sightings.Pairwise fun a b =>
      (!isStale ttl now b) = true → (!isStale ttl now a) = true := by
    refine h.imp fun {a b} hab hb => ?_
    rw [Bool.not_eq_true', isStale_eq_false_iff] at hb ⊢
    exact (Nat.sub_le_sub_left hab now).trans hb
  have happend := filter_append_filter_not hkeep
  simp only [Bool.not_not] at happend
  exact happend.symm

theorem staleCount_eq_length (s : PeerSet) (ttl now : Time) :
    s.staleCount ttl now = (s.sightings.filter (isStale ttl now)).length :=
  List.countP_eq_length_filter

theorem size_prune (s : PeerSet) (ttl now : Time) :
    (s.prune ttl now).size + s.staleCount ttl now = s.size := by
  have hcount := List.length_eq_countP_add_countP (isStale ttl now) (l := s.sightings)
  rw [List.countP_eq_length_filter (p := fun a => decide ¬isStale ttl now a = true)] at hcount
  simp only [Bool.not_eq_true, Bool.decide_eq_false] at hcount
  rw [size, size, staleCount, prune, hcount, Nat.add_comm]

/-- Once pruned, a set has nothing left for a pruning at the same time, however lenient. -/
theorem call_prune_prune (s : PeerSet) (now : Time) {ttl ttl' : Time} (h : ttl ≤ ttl') :
    (s.prune ttl now).call now (.prune ttl') = (.count 0, s.prune ttl now) := by
  have hfresh : ∀ e ∈ (s.prune ttl now).sightings, isStale ttl' now e = false := by
    intro e he
    have hkept := (List.mem_filter.1 he).2
    rw [Bool.not_eq_true', isStale_eq_false_iff] at hkept
    exact isStale_eq_false_iff.2 (hkept.trans h)
  have hcount : (s.prune ttl now).staleCount ttl' now = 0 :=
    List.countP_eq_zero.2 fun e he => by simp [hfresh e he]
  have hprune : (s.prune ttl now).prune ttl' now = s.prune ttl now := by
    rw [prune, List.filter_eq_self.2 fun e he => by simp [hfresh e he]]
  rw [call, hcount, hprune]

theorem foldl_pop (s : PeerSet) (ps : List PeerId) :
    ps.foldl pop s = { s with sightings := s.sightings.filter fun e => e.peer ∉ ps } := by
  induction ps generalizing s with
  | nil => simp
  | cons p ps ih =>
    rw [List.foldl_cons, ih, pop, List.filter_filter]
    congr 2
    funext e
    rw [Bool.eq_iff_iff]
    simp [and_comm]

/-- **Taking out the stale peers one by one leaves what a pruning keeps**, since nobody is known
twice. -/
theorem foldl_pop_stale (h : s.peers.Nodup) (ttl now : Time) :
    (s.stale ttl now).foldl pop s = s.prune ttl now := by
  rw [foldl_pop, prune]
  congr 1
  refine List.filter_congr fun e he => ?_
  have hmem : e.peer ∈ s.stale ttl now ↔ isStale ttl now e = true := by
    constructor
    · intro hstale
      obtain ⟨e', he', hpeer⟩ := List.mem_map.1 hstale
      obtain ⟨hmem', hold⟩ := List.mem_filter.1 he'
      obtain rfl := List.inj_on_of_nodup_map h hmem' he hpeer
      exact hold
    · intro hold
      exact List.mem_map_of_mem (List.mem_filter.2 ⟨he, hold⟩)
  simp [hmem]

/-! ## One call -/

theorem peers_ne_nil_of_full (h : s.size = s.capacity) : s.peers ≠ [] := by
  rw [← List.length_pos_iff, length_peers, h]
  exact s.capacity_pos

/-- What the front of a list without repetitions lacks is the rest of it. -/
theorem filter_notMem_take {α : Type} [DecidableEq α] {l : List α} (h : l.Nodup) (n : Nat) :
    l.filter (fun a => a ∉ l.take n) = l.drop n := by
  have hdisjoint := List.disjoint_take_drop h (Nat.le_refl n)
  conv_lhs => enter [2]; rw [← List.take_append_drop n l]
  rw [List.filter_append, List.filter_eq_nil_iff.2 fun a ha => by simpa using ha,
    List.nil_append, List.filter_eq_self.2]
  intro a ha
  simpa using fun hfront => hdisjoint hfront ha

/-- A peer that is already known drives out nobody. -/
theorem insert_of_mem (h : s.Proper) (hp : p ∈ s.peers) (now : Time) :
    (s.insert p now).peers = p :: s.peers.filter (· != p) ∧ (s.insert p now).size = s.size := by
  have herase : (s.peers.filter (· != p)).length = s.size - 1 := by
    rw [← h.nodup.erase_eq_filter, List.length_erase_of_mem hp, length_peers]
  have hpos : 0 < s.size := length_peers s ▸ List.length_pos_of_mem hp
  have hlength : (p :: s.peers.filter (· != p)).length = s.size := by
    rw [List.length_cons, herase]
    omega
  have hpeers : (s.insert p now).peers = p :: s.peers.filter (· != p) := by
    rw [peers_insert, List.take_of_length_le (hlength ▸ h.bounded)]
  exact ⟨hpeers, by rw [← length_peers, hpeers, hlength]⟩

/-- A new peer stands before as many of the others as the set has room for. -/
theorem insert_of_notMem (s : PeerSet) (hp : p ∉ s.peers) (now : Time) :
    (s.insert p now).peers = p :: s.peers.take (s.capacity - 1) ∧
      (s.insert p now).size = min s.capacity (s.size + 1) := by
  have hfilter : s.peers.filter (· != p) = s.peers :=
    List.filter_eq_self.2 fun q hq => bne_iff_ne.2 fun heq => hp (heq ▸ hq)
  obtain ⟨n, hn⟩ : ∃ n, s.capacity = n + 1 := ⟨s.capacity - 1, by have := s.capacity_pos; omega⟩
  have hpeers : (s.insert p now).peers = (p :: s.peers).take s.capacity := by
    rw [peers_insert, hfilter]
  constructor
  · rw [hpeers, hn, List.take_succ_cons, Nat.add_sub_cancel]
  · rw [← length_peers, hpeers, List.length_take, List.length_cons, length_peers]

theorem admits_insert (s : PeerSet) (p : PeerId) (now : Time) :
    Turn.admits ⟨s, now, .insert p⟩ = !s.contains p := by
  simp only [Turn.admits, Turn.answer, call, Call.inserted?, Option.isSome_some, Bool.true_and]
  cases s.contains p <;> rfl

/-- **A new peer drives out the one at the back of a full set; no other insertion drives out
anybody.** -/
theorem evicted_insert (h : s.Proper) (p : PeerId) (now : Time) :
    Turn.evicted ⟨s, now, .insert p⟩ =
      if p ∉ s.peers ∧ s.size = s.capacity then s.peers.getLast?.toList else [] := by
  have hevicted : Turn.evicted ⟨s, now, .insert p⟩ =
      s.peers.filter fun q => q ∉ (s.insert p now).peers := by
    simp only [Turn.evicted, Call.inserted?, Option.isSome_some, if_true]
    refine List.filter_congr fun q _ => ?_
    rw [Bool.eq_iff_iff, Bool.not_eq_true', ← Bool.not_eq_true, contains_iff_mem]
    simp [Turn.after, call]
  rw [hevicted]
  by_cases hp : p ∈ s.peers
  · rw [if_neg fun hnew => hnew.1 hp, (insert_of_mem h hp now).1, List.filter_eq_nil_iff]
    intro q hq
    by_cases hqp : q = p <;> simp [hqp, hq]
  · have hrest : (s.peers.filter fun q => q ∉ (s.insert p now).peers) =
        s.peers.drop (s.capacity - 1) := by
      rw [(insert_of_notMem s hp now).1, ← filter_notMem_take h.nodup]
      refine List.filter_congr fun q hq => ?_
      have hqp : q ≠ p := fun heq => hp (heq ▸ hq)
      simp [hqp]
    have hpos := s.capacity_pos
    have hbounded := h.bounded
    -- There are at most `capacity` peers, so this leaves the last of a full set, or nobody.
    rw [hrest]
    by_cases hfull : s.size = s.capacity
    · have hne := peers_ne_nil_of_full hfull
      rw [if_pos ⟨hp, hfull⟩, ← hfull, ← length_peers, List.drop_length_sub_one hne,
        List.getLast?_eq_some_getLast hne, Option.toList_some]
    · rw [if_neg fun hnew => hfull hnew.2, List.drop_eq_nil_iff, length_peers]
      omega

theorem evicted_eq (v : Turn) (h : v.before.Proper) :
    v.evicted = if v.admits ∧ v.before.size = v.before.capacity then
      v.before.peers.getLast?.toList else [] := by
  obtain ⟨s, now, c⟩ := v
  cases c with
  | insert p => rw [evicted_insert h, admits_insert]; simp [← contains_iff_mem]
  | _ => simp [Turn.evicted, Turn.admits, Call.inserted?]

/-- **What comes in by a call goes out by it or stays.** -/
theorem size_after (v : Turn) (h : v.before.Proper) :
    v.after.size + v.evicted.length + v.pruned = v.before.size + v.admits.toNat := by
  obtain ⟨s, now, c⟩ := v
  cases c with
  | insert p =>
    have hbounded : s.size ≤ s.capacity := h.bounded
    have hpos := s.capacity_pos
    rw [evicted_insert h, admits_insert]
    show (s.insert p now).size + _ + 0 = s.size + _
    by_cases hp : p ∈ s.peers
    · have hknown := (contains_iff_mem s p).2 hp
      rw [if_neg fun hnew => hnew.1 hp, (insert_of_mem h hp now).2, hknown]
      rfl
    · have hnew : s.contains p = false := by
        rw [← Bool.not_eq_true, contains_iff_mem]
        exact hp
      rw [(insert_of_notMem s hp now).2, hnew]
      by_cases hfull : s.size = s.capacity
      · have hne := peers_ne_nil_of_full hfull
        rw [if_pos ⟨hp, hfull⟩, List.getLast?_eq_some_getLast hne, Option.toList_some,
          List.length_singleton, Bool.not_false, Bool.toNat_true]
        omega
      · rw [if_neg fun hnew => hfull hnew.2, List.length_nil, Bool.not_false, Bool.toNat_true]
        omega
  | prune ttl => exact size_prune s ttl now
  | contains p => rfl
  | size => rfl
  | isEmpty => rfl

/-! ## Runs -/

theorem before_of_mem_turns (h : s.Proper) {v : Turn} (hv : v ∈ s.turns calls) :
    v.before.Proper ∧ v.before.capacity = s.capacity := by
  induction calls generalizing s with
  | nil => nomatch hv
  | cons c rest ih =>
    rcases List.mem_cons.1 hv with rfl | hv
    · exact ⟨h, rfl⟩
    · obtain ⟨hproper, hcap⟩ := ih (h.call c.1 c.2) hv
      exact ⟨hproper, hcap.trans (call_capacity s c.1 c.2)⟩

/-- **What came in by a run went out by it or is still there.** -/
theorem size_run (h : s.Proper) (calls : List (Time × Call)) :
    (s.run calls).size + ((s.turns calls).flatMap Turn.evicted).length +
        ((s.turns calls).map Turn.pruned).sum =
      s.size + (s.turns calls).countP Turn.admits := by
  induction calls generalizing s with
  | nil => rfl
  | cons c rest ih =>
    have hrest := ih (h.call c.1 c.2)
    have hstep : (s.call c.1 c.2).2.size + (Turn.evicted ⟨s, c.1, c.2⟩).length +
        Turn.pruned ⟨s, c.1, c.2⟩ = s.size + (Turn.admits ⟨s, c.1, c.2⟩).toNat :=
      size_after ⟨s, c.1, c.2⟩ h
    have hrun : s.run (c :: rest) = (s.call c.1 c.2).2.run rest := rfl
    have hturns : s.turns (c :: rest) = ⟨s, c.1, c.2⟩ :: (s.call c.1 c.2).2.turns rest := rfl
    have hadmits : (if Turn.admits ⟨s, c.1, c.2⟩ = true then 1 else 0) =
        (Turn.admits ⟨s, c.1, c.2⟩).toNat := by
      cases Turn.admits ⟨s, c.1, c.2⟩ <;> rfl
    -- What the first call leaves is what the rest starts from, so the two balances add up.
    rw [hrun, hturns, List.flatMap_cons, List.length_append, List.map_cons, List.sum_cons,
      List.countP_cons, hadmits]
    omega

/-- **In a run at moments that do not go back the set stays in the order of the times, a pruning
cuts off the tail that is too old, and every peer that was new is accounted for.** -/
theorem accounting_spec {capacity : Nat} {calls : List (Time × Call)} {s : PeerSet}
    (horder : InOrder calls) (hs : (empty capacity).run calls = s) :
    s.sightings.Pairwise (fun a b => b.seen ≤ a.seen) ∧
    (∀ ttl now, ∃ kept gone, s.sightings = kept ++ gone ∧
      s.call now (.prune ttl) = (.count gone.length, { s with sightings := kept }) ∧
      (s.stale ttl now).foldl pop s = { s with sightings := kept } ∧
      (∀ e ∈ kept, now - e.seen ≤ ttl) ∧ (∀ e ∈ gone, ttl < now - e.seen) ∧
      ∀ ttl', ttl ≤ ttl' → ({ s with sightings := kept } : PeerSet).call now (.prune ttl') =
        (.count 0, { s with sightings := kept })) ∧
    (empty capacity).answers calls = ((empty capacity).turns calls).map Turn.answer ∧
    (∀ v ∈ (empty capacity).turns calls, v.evicted =
      if v.admits ∧ v.before.size = max capacity 1 then v.before.peers.getLast?.toList else []) ∧
    ((empty capacity).turns calls).countP Turn.admits =
      s.size + (((empty capacity).turns calls).flatMap Turn.evicted).length +
        (((empty capacity).turns calls).map Turn.pruned).sum := by
  have hsorted : s.sightings.Pairwise fun a b => b.seen ≤ a.seen := by
    rw [← hs, run_sightings capacity horder]
    exact (recency_sorted horder).sublist (List.filter_sublist.trans (List.take_sublist _ _))
  refine ⟨hsorted, fun ttl now => ?_, answers_eq_map_turns _ _, fun v hv => ?_, ?_⟩
  · refine ⟨(s.prune ttl now).sightings, s.sightings.filter (isStale ttl now),
      sightings_eq_append hsorted ttl now, ?_, ?_, fun e he => ?_, fun e he => ?_, ?_⟩
    · rw [call, staleCount_eq_length]
      rfl
    · exact foldl_pop_stale (hs ▸ (run_bounded capacity calls).1) ttl now
    · have hkept := (List.mem_filter.1 he).2
      rwa [Bool.not_eq_true', isStale_eq_false_iff] at hkept
    · exact isStale_iff.1 (List.mem_filter.1 he).2
    · intro ttl' hle
      exact call_prune_prune s now hle
  · obtain ⟨hproper, hcap⟩ := before_of_mem_turns (proper_empty capacity) hv
    rw [evicted_eq v hproper, hcap]
    rfl
  · have hrun := size_run (proper_empty capacity) calls
    rw [hs] at hrun
    exact (hrun.trans (Nat.zero_add _)).symm

/-- Three peers come to a set of two, one of them again after it was driven out; then two are too
old. -/
def arrivals : List (Time × Call) :=
  [(0, .insert ⟨.sha256, [1]⟩), (1, .insert ⟨.sha256, [2]⟩), (1, .insert ⟨.sha256, [2]⟩),
    (2, .insert ⟨.sha256, [3]⟩), (4, .insert ⟨.sha256, [1]⟩), (9, .prune 5),
    (9, .insert ⟨.sha256, [2]⟩), (20, .prune 12)]

theorem accounting_spec_arrivals :
    InOrder arrivals ∧
    ((empty 2).run arrivals).sightings.Pairwise (fun a b => b.seen ≤ a.seen) ∧
    (((empty 2).turns arrivals).map Turn.evicted).flatten = [⟨.sha256, [1]⟩, ⟨.sha256, [2]⟩] ∧
    (((empty 2).turns arrivals).map Turn.pruned).sum = 2 ∧
    ((empty 2).turns arrivals).countP Turn.admits = ((empty 2).run arrivals).size + 2 + 2 := by
  have horder : InOrder arrivals := by unfold InOrder; decide
  obtain ⟨hsorted, -, -, -, htotal⟩ := accounting_spec (s := (empty 2).run arrivals) horder rfl
  exact ⟨horder, hsorted, by decide, by decide, htotal.trans (by decide)⟩

end Quorum.PeerSet
