import Mathlib
import Quorum.Peer.Calls

/-!
# The peer set as a function of its history

`recency` lists every peer that was ever inserted with the time of its last insertion, most
recent first, without a capacity and without pruning. The times along it decrease, so the peers
that some pruning found too old are a tail of it; hence what the set holds after a run is the
part of the first `capacity` of them that no pruning found too old (`run_sightings`). A peer's
place in `recency` is the number of distinct peers inserted after it (`recency_split`), which
says of one peer by itself whether it is a member (`run_spec`).
-/

namespace Quorum.PeerSet

/-- The peer that a call inserts. -/
def Call.inserted? : Call → Option PeerId
  | .insert p => some p
  | _ => none

/-- The distinct peers that some calls insert. -/
def inserted (calls : List (Time × Call)) : Finset PeerId :=
  (calls.filterMap fun c => c.2.inserted?).toFinset

/-- Takes one call into the list of last insertions. -/
def note (es : List Sighting) (c : Time × Call) : List Sighting :=
  match c.2.inserted? with
  | some p => ⟨p, c.1⟩ :: es.filter (·.peer != p)
  | none => es

/-- The last insertion of every peer inserted by some calls, most recent first. -/
def recency (calls : List (Time × Call)) : List Sighting := calls.foldl note []

/-- Whether a call leaves a sighting that is old enough to be pruned. -/
def Call.spares (e : Sighting) (now : Time) : Call → Bool
  | .prune ttl => !isStale ttl now e
  | _ => true

/-- Whether no pruning found the sighting too old. -/
def outlasts (calls : List (Time × Call)) (e : Sighting) : Bool :=
  calls.all fun c => c.2.spares e c.1

/-- `p` was inserted for the last time at `t`, and `after` are the calls made since. -/
def LastInsertion (calls : List (Time × Call)) (p : PeerId) (t : Time)
    (after : List (Time × Call)) : Prop :=
  (∃ before, calls = before ++ (t, .insert p) :: after) ∧ p ∉ inserted after

variable {calls after : List (Time × Call)} {c : Time × Call} {p q : PeerId} {t : Time}
  {e : Sighting}

/-! ## One call more -/

theorem run_append_singleton (s : PeerSet) (calls : List (Time × Call)) (c : Time × Call) :
    s.run (calls ++ [c]) = ((s.run calls).call c.1 c.2).2 := by
  simp [run, List.foldl_append]

theorem recency_append_singleton (calls : List (Time × Call)) (c : Time × Call) :
    recency (calls ++ [c]) = note (recency calls) c := by
  simp [recency, List.foldl_append]

theorem mem_inserted : p ∈ inserted calls ↔ ∃ c ∈ calls, c.2.inserted? = some p := by
  simp [inserted]

theorem mem_inserted_append_singleton :
    p ∈ inserted (calls ++ [c]) ↔ p ∈ inserted calls ∨ c.2.inserted? = some p := by
  simp only [mem_inserted, List.mem_append, List.mem_singleton, or_and_right, exists_or,
    exists_eq_left]

theorem outlasts_iff : outlasts calls e = true ↔
    ∀ now ttl, (now, .prune ttl) ∈ calls → now - e.seen ≤ ttl := by
  simp only [outlasts, List.all_eq_true, Prod.forall]
  constructor
  · intro h now ttl hmem
    simpa [Call.spares, isStale] using h now (.prune ttl) hmem
  · intro h now call hmem
    cases call with
    | prune ttl => simpa [Call.spares, isStale] using h now ttl hmem
    | _ => rfl

theorem outlasts_append_singleton (calls : List (Time × Call)) (c : Time × Call) (e : Sighting) :
    outlasts (calls ++ [c]) e = (outlasts calls e && c.2.spares e c.1) := by
  simp [outlasts, List.all_append]

theorem mem_note (h : e ∈ note (recency calls) c) :
    (c.2.inserted? = some e.peer ∧ e.seen = c.1) ∨
      (e ∈ recency calls ∧ c.2.inserted? ≠ some e.peer) := by
  unfold note at h
  split at h
  · rename_i p hp
    rcases List.mem_cons.1 h with rfl | h
    · exact .inl ⟨hp, rfl⟩
    · obtain ⟨hmem, hne⟩ := List.mem_filter.1 h
      refine .inr ⟨hmem, fun heq => ?_⟩
      rw [hp, Option.some.injEq] at heq
      simp [heq] at hne
  · rename_i hnone
    exact .inr ⟨h, by rw [hnone]; nofun⟩

/-! ## The list of last insertions -/

theorem LastInsertion.append_singleton (h : LastInsertion calls p t after)
    (hc : c.2.inserted? ≠ some p) : LastInsertion (calls ++ [c]) p t (after ++ [c]) := by
  obtain ⟨⟨before, rfl⟩, hafter⟩ := h
  refine ⟨⟨before, by simp⟩, ?_⟩
  rw [mem_inserted_append_singleton, not_or]
  exact ⟨hafter, hc⟩

/-- Every entry tells of a last insertion. -/
theorem lastInsertion_of_mem (he : e ∈ recency calls) :
    ∃ after, LastInsertion calls e.peer e.seen after := by
  induction calls using List.reverseRecOn with
  | nil => cases he
  | append_singleton calls c ih =>
    rw [recency_append_singleton] at he
    rcases mem_note he with ⟨hins, hseen⟩ | ⟨hmem, hne⟩
    · refine ⟨[], ⟨calls, ?_⟩, by simp [inserted]⟩
      obtain ⟨now, call⟩ := c
      cases call <;> simp_all [Call.inserted?]
    · obtain ⟨after, h⟩ := ih hmem
      exact ⟨after ++ [c], h.append_singleton hne⟩

theorem recency_nodup (calls : List (Time × Call)) : ((recency calls).map (·.peer)).Nodup := by
  induction calls using List.reverseRecOn with
  | nil => exact List.nodup_nil
  | append_singleton calls c ih =>
    rw [recency_append_singleton]
    unfold note
    split
    · rename_i p hp
      rw [List.map_cons, List.nodup_cons]
      refine ⟨fun hmem => ?_, ih.sublist (List.filter_sublist.map _)⟩
      obtain ⟨e, he, hpeer⟩ := List.mem_map.1 hmem
      simp [hpeer] at he
    · exact ih

/-- The more recent of two entries was inserted after the last insertion of the other. -/
theorem recency_ordered (calls : List (Time × Call)) : (recency calls).Pairwise fun a b =>
    ∃ t after, LastInsertion calls b.peer t after ∧ a.peer ∈ inserted after := by
  induction calls using List.reverseRecOn with
  | nil => exact List.Pairwise.nil
  | append_singleton calls c ih =>
    -- Entries whose peer the new call does not insert keep their order.
    have hkeep : ∀ es : List Sighting, es.Sublist (recency calls) →
        (∀ e ∈ es, c.2.inserted? ≠ some e.peer) → es.Pairwise fun a b =>
          ∃ t after, LastInsertion (calls ++ [c]) b.peer t after ∧ a.peer ∈ inserted after := by
      intro es hsub hne
      refine (ih.sublist hsub).imp_of_mem fun {a b} _ hb hab => ?_
      obtain ⟨t, after, hlast, hmem⟩ := hab
      exact ⟨t, after ++ [c], hlast.append_singleton (hne b hb),
        mem_inserted_append_singleton.2 (.inl hmem)⟩
    rw [recency_append_singleton]
    unfold note
    split
    · rename_i p hp
      have hne : ∀ e ∈ (recency calls).filter (·.peer != p), c.2.inserted? ≠ some e.peer := by
        intro e he heq
        rw [hp, Option.some.injEq] at heq
        simp [heq] at he
      refine List.pairwise_cons.2 ⟨fun e he => ?_, hkeep _ List.filter_sublist hne⟩
      obtain ⟨after, hlast⟩ := lastInsertion_of_mem (List.mem_filter.1 he).1
      exact ⟨e.seen, after ++ [c], hlast.append_singleton (hne e he),
        mem_inserted_append_singleton.2 (.inr hp)⟩
    · rename_i hnone
      exact hkeep _ (List.Sublist.refl _) fun e _ => by rw [hnone]; nofun

/-- Before a peer's entry stand the peers inserted since. -/
theorem recency_split (h : LastInsertion calls p t after) :
    ∃ newer older, recency calls = newer ++ ⟨p, t⟩ :: older ∧
      ∀ q, q ∈ newer.map (·.peer) ↔ q ∈ inserted after := by
  obtain ⟨⟨before, rfl⟩, hafter⟩ := h
  induction after using List.reverseRecOn with
  | nil =>
    rw [recency_append_singleton]
    exact ⟨[], _, rfl, by simp [inserted]⟩
  | append_singleton after c ih =>
    rw [mem_inserted_append_singleton, not_or] at hafter
    obtain ⟨newer, older, heq, hnewer⟩ := ih hafter.1
    rw [← List.cons_append, ← List.append_assoc, recency_append_singleton, heq]
    unfold note
    split
    · rename_i q hq
      have hpq : p ≠ q := fun h => hafter.2 (h ▸ hq)
      refine ⟨⟨q, c.1⟩ :: newer.filter (·.peer != q), older.filter (·.peer != q), ?_, ?_⟩
      · rw [List.filter_append, List.filter_cons_of_pos (by simpa using hpq), List.cons_append]
      · intro r
        rw [mem_inserted_append_singleton, ← hnewer, hq]
        by_cases hrq : r = q
        · simp [hrq]
        · have hqr : q ≠ r := fun h => hrq h.symm
          simp only [List.map_cons, List.mem_cons, hrq, false_or, List.mem_map, List.mem_filter,
            bne_iff_ne, Option.some.injEq, hqr, or_false]
          constructor
          · rintro ⟨e, ⟨he, -⟩, rfl⟩
            exact ⟨e, he, rfl⟩
          · rintro ⟨e, he, rfl⟩
            exact ⟨e, ⟨he, hrq⟩, rfl⟩
    · rename_i hnone
      refine ⟨newer, older, rfl, fun r => ?_⟩
      rw [mem_inserted_append_singleton, hnone, hnewer]
      simp

theorem seen_le_of_mem {now : Time} (h : ∀ c ∈ calls, c.1 ≤ now) (he : e ∈ recency calls) :
    e.seen ≤ now := by
  obtain ⟨after, ⟨before, rfl⟩, -⟩ := lastInsertion_of_mem he
  exact h (e.seen, .insert e.peer) (by simp)

/-- Along the list the times decrease. -/
theorem recency_sorted (h : InOrder calls) :
    (recency calls).Pairwise fun a b => b.seen ≤ a.seen := by
  induction calls using List.reverseRecOn with
  | nil => exact List.Pairwise.nil
  | append_singleton calls c ih =>
    obtain ⟨hcalls, -, hlast⟩ := List.pairwise_append.1 h
    rw [recency_append_singleton]
    unfold note
    split
    · refine List.pairwise_cons.2 ⟨fun e he => ?_, (ih hcalls).sublist List.filter_sublist⟩
      exact seen_le_of_mem (fun c' hc' => hlast c' hc' c (by simp)) (List.mem_filter.1 he).1
    · exact ih hcalls

/-! ## What the set holds -/

/-- Taking the front of a list and keeping what has a property that only a tail lacks are done
in either order. -/
theorem filter_take_comm {α : Type} {keep : α → Bool} {l : List α}
    (h : l.Pairwise fun a b => keep b = true → keep a = true) (n : Nat) :
    (l.take n).filter keep = (l.filter keep).take n := by
  induction l generalizing n with
  | nil => simp
  | cons a l ih =>
    rw [List.pairwise_cons] at h
    cases n with
    | zero => simp
    | succ n =>
      by_cases ha : keep a = true
      · rw [List.take_succ_cons, List.filter_cons_of_pos ha, List.filter_cons_of_pos ha,
          List.take_succ_cons, ih h.2]
      · have hnone : l.filter keep = [] :=
          List.filter_eq_nil_iff.2 fun b hb hkb => ha (h.1 b hb hkb)
        rw [List.take_succ_cons, List.filter_cons_of_neg ha, List.filter_cons_of_neg ha, ih h.2,
          hnone]
        simp

/-- Removing a peer leaves room for one entry less than the front had. -/
theorem filter_take_succ {l : List Sighting} (h : (l.map (·.peer)).Nodup) (p : PeerId) (n : Nat) :
    ((l.take (n + 1)).filter (·.peer != p)).take n = (l.filter (·.peer != p)).take n := by
  induction l generalizing n with
  | nil => simp
  | cons e l ih =>
    rw [List.map_cons, List.nodup_cons] at h
    rw [List.take_succ_cons]
    by_cases he : e.peer = p
    · have hrest : ∀ a ∈ l, (a.peer != p) = true := by
        intro a ha
        rw [bne_iff_ne, ← he]
        exact fun heq => h.1 (heq ▸ List.mem_map_of_mem ha)
      rw [List.filter_cons_of_neg (by simp [he]), List.filter_cons_of_neg (by simp [he]),
        List.filter_eq_self.2 hrest,
        List.filter_eq_self.2 fun a ha => hrest a (List.mem_of_mem_take ha), List.take_take,
        Nat.min_self]
    · rw [List.filter_cons_of_pos (by simpa using he), List.filter_cons_of_pos (by simpa using he)]
      cases n with
      | zero => simp
      | succ n => rw [List.take_succ_cons, List.take_succ_cons, ih h.2]

/-- Of two sightings the older one is pruned first. -/
theorem outlasts_mono {a b : Sighting} (hab : b.seen ≤ a.seen) (h : outlasts calls b = true) :
    outlasts calls a = true := by
  rw [outlasts_iff] at h ⊢
  intro now ttl hmem
  exact (Nat.sub_le_sub_left hab now).trans (h now ttl hmem)

theorem outlasts_of_le {now : Time} (h : ∀ c ∈ calls, c.1 ≤ now) (p : PeerId) :
    outlasts calls ⟨p, now⟩ = true := by
  rw [outlasts_iff]
  intro now' ttl hmem
  have hage : now' - now = 0 := Nat.sub_eq_zero_of_le (h _ hmem)
  exact hage ▸ Nat.zero_le ttl

theorem call_capacity (s : PeerSet) (now : Time) (c : Call) :
    (s.call now c).2.capacity = s.capacity := by
  cases c <;> rfl

theorem run_capacity (s : PeerSet) (calls : List (Time × Call)) :
    (s.run calls).capacity = s.capacity := by
  induction calls generalizing s with
  | nil => rfl
  | cons c rest ih => exact (ih (s.call c.1 c.2).2).trans (call_capacity s c.1 c.2)

theorem length_peers (s : PeerSet) : s.peers.length = s.size := List.length_map _

theorem peers_insert (s : PeerSet) (p : PeerId) (now : Time) :
    (s.insert p now).peers = (p :: s.peers.filter (· != p)).take s.capacity := by
  rw [peers, insert, List.map_take, List.map_cons, peers, List.filter_map]
  rfl

theorem nodup_insert {s : PeerSet} (h : s.peers.Nodup) (p : PeerId) (now : Time) :
    (s.insert p now).peers.Nodup := by
  rw [peers_insert]
  refine List.Nodup.sublist (List.take_sublist _ _) ?_
  rw [List.nodup_cons]
  exact ⟨by simp, h.filter _⟩

theorem nodup_prune {s : PeerSet} (h : s.peers.Nodup) (ttl now : Time) :
    (s.prune ttl now).peers.Nodup :=
  h.sublist (List.filter_sublist.map _)

theorem size_insert_le (s : PeerSet) (p : PeerId) (now : Time) :
    (s.insert p now).size ≤ s.capacity :=
  List.length_take_le _ _

theorem size_prune_le (s : PeerSet) (ttl now : Time) : (s.prune ttl now).size ≤ s.size :=
  List.length_filter_le _ _

/-- No peer is known twice and the set has room for all. -/
structure Proper (s : PeerSet) : Prop where
  nodup : s.peers.Nodup
  bounded : s.size ≤ s.capacity

theorem proper_empty (capacity : Nat) : (empty capacity).Proper :=
  ⟨List.nodup_nil, Nat.zero_le _⟩

theorem Proper.call {s : PeerSet} (h : s.Proper) (now : Time) (c : Call) :
    (s.call now c).2.Proper := by
  cases c with
  | insert p => exact ⟨nodup_insert h.nodup p now, size_insert_le s p now⟩
  | prune ttl => exact ⟨nodup_prune h.nodup ttl now, (size_prune_le s ttl now).trans h.bounded⟩
  | contains p => exact h
  | size => exact h
  | isEmpty => exact h

theorem Proper.run {s : PeerSet} (h : s.Proper) (calls : List (Time × Call)) :
    (s.run calls).Proper := by
  induction calls generalizing s with
  | nil => exact h
  | cons c rest ih => exact ih (h.call c.1 c.2)

/-- Whatever the calls and their moments, no peer is known twice and the set has room for all. -/
theorem run_bounded (capacity : Nat) (calls : List (Time × Call)) :
    ((empty capacity).run calls).peers.Nodup ∧
      ((empty capacity).run calls).size ≤ max capacity 1 := by
  have hproper := (proper_empty capacity).run calls
  have hcap : ((empty capacity).run calls).capacity = max capacity 1 := run_capacity _ _
  exact ⟨hproper.nodup, hcap ▸ hproper.bounded⟩

/-- What one insertion does to the front of the list of last insertions. -/
theorem insert_front {es : List Sighting} {keep : Sighting → Bool}
    (hnodup : (es.map (·.peer)).Nodup) (hkeep : es.Pairwise fun a b => keep b = true → keep a = true)
    (hnew : keep e = true) (n : Nat) :
    (e :: ((es.take (n + 1)).filter keep).filter (·.peer != p)).take (n + 1) =
      ((e :: es.filter (·.peer != p)).take (n + 1)).filter keep := by
  have hnodup' : ((es.filter keep).map (·.peer)).Nodup :=
    hnodup.sublist (List.filter_sublist.map _)
  rw [List.take_succ_cons, List.take_succ_cons, List.filter_cons_of_pos hnew,
    filter_take_comm hkeep, filter_take_succ hnodup', filter_take_comm (hkeep.sublist
      List.filter_sublist), List.filter_comm]

/-- **The set holds the most recent last insertions, as many as it has room for, less those that
a pruning found too old.** -/
theorem run_sightings (capacity : Nat) (h : InOrder calls) :
    ((empty capacity).run calls).sightings =
      ((recency calls).take (max capacity 1)).filter (outlasts calls) := by
  induction calls using List.reverseRecOn with
  | nil => simp [run, empty, recency]
  | append_singleton calls c ih =>
    obtain ⟨hcalls, -, hlast⟩ := List.pairwise_append.1 h
    have ih := ih hcalls
    have hcap : ((empty capacity).run calls).capacity = max capacity 1 := run_capacity _ _
    obtain ⟨now, call⟩ := c
    have houtlasts := funext (outlasts_append_singleton calls (now, call))
    rw [run_append_singleton, recency_append_singleton, houtlasts]
    cases call with
    | insert p =>
      have hle : ∀ c ∈ calls, c.1 ≤ now := fun c hc => hlast c hc (now, .insert p) (by simp)
      obtain ⟨n, hn⟩ : ∃ n, max capacity 1 = n + 1 := ⟨max capacity 1 - 1, by omega⟩
      have hmono := (recency_sorted hcalls).imp fun {a b} hab => @outlasts_mono calls a b hab
      simp only [call, insert, note, Call.inserted?, Call.spares, Bool.and_true, hcap, ih, hn]
      exact insert_front (recency_nodup calls) hmono (outlasts_of_le hle p) n
    | prune ttl =>
      simp only [call, prune, note, Call.inserted?, Call.spares, ih, List.filter_filter,
        Bool.and_comm]
    | contains p => simpa only [call, note, Call.inserted?, Call.spares, Bool.and_true] using ih
    | size => simpa only [call, note, Call.inserted?, Call.spares, Bool.and_true] using ih
    | isEmpty => simpa only [call, note, Call.inserted?, Call.spares, Bool.and_true] using ih

/-! ## Single peers -/

/-- A peer is among the first `n` last insertions when fewer distinct ones were inserted since. -/
theorem mem_take_recency_iff (h : LastInsertion calls p t after) (n : Nat) :
    ⟨p, t⟩ ∈ (recency calls).take n ↔ (inserted after).card < n := by
  obtain ⟨newer, older, heq, hnewer⟩ := recency_split h
  have hnodup := recency_nodup calls
  rw [heq, List.map_append, List.map_cons] at hnodup
  have hcard : (inserted after).card = newer.length := by
    have hset : inserted after = (newer.map (·.peer)).toFinset := by
      ext q
      rw [List.mem_toFinset, hnewer]
    rw [hset, List.toFinset_card_of_nodup hnodup.of_append_left, List.length_map]
  rw [heq, hcard, List.take_append]
  by_cases hlt : newer.length < n
  · obtain ⟨k, hk⟩ : ∃ k, n - newer.length = k + 1 := ⟨n - newer.length - 1, by omega⟩
    simp [hk, hlt]
  · have hout : ⟨p, t⟩ ∉ newer.take n := by
      intro hmem
      exact h.2 ((hnewer p).1 (List.mem_map_of_mem (List.mem_of_mem_take hmem)))
    have hzero : n - newer.length = 0 := by omega
    simp [hzero, hlt, hout]

/-- A pruning before the insertion cannot have found it too old. -/
theorem LastInsertion.outlasts_iff (horder : InOrder calls) (h : LastInsertion calls p t after) :
    outlasts calls ⟨p, t⟩ = true ↔ ∀ now ttl, (now, .prune ttl) ∈ after → now - t ≤ ttl := by
  obtain ⟨⟨before, rfl⟩, -⟩ := h
  have hbefore := (List.pairwise_append.1 horder).2.2
  rw [PeerSet.outlasts_iff]
  constructor
  · intro hall now ttl hmem
    exact hall now ttl (by simp [hmem])
  · intro hall now ttl hmem
    rcases List.mem_append.1 hmem with hmem | hmem
    · have hage : now - t = 0 := Nat.sub_eq_zero_of_le (hbefore _ hmem (t, .insert p) (by simp))
      exact hage ▸ Nat.zero_le ttl
    · rcases List.mem_cons.1 hmem with heq | hmem
      · cases heq
      · exact hall now ttl hmem

theorem mem_sightings_iff (capacity : Nat) (horder : InOrder calls)
    (h : LastInsertion calls p t after) :
    ⟨p, t⟩ ∈ ((empty capacity).run calls).sightings ↔ (inserted after).card < max capacity 1 ∧
      ∀ now ttl, (now, .prune ttl) ∈ after → now - t ≤ ttl := by
  rw [run_sightings capacity horder, List.mem_filter, mem_take_recency_iff h,
    h.outlasts_iff horder]

theorem contains_iff_mem (s : PeerSet) (p : PeerId) : s.contains p = true ↔ p ∈ s.peers := by
  simp [contains, peers]

/-- **A run of calls at moments that do not go back leaves exactly the peers that were inserted,
fewer than `capacity` others since, and were never found too old since.** They are listed once
each, the most recently inserted first; calls that only ask, like looking at the list itself,
leave the set as it is. -/
theorem run_spec {capacity : Nat} {calls : List (Time × Call)} {s : PeerSet}
    (horder : InOrder calls) (hs : (empty capacity).run calls = s) :
    (∀ p, p ∈ s.peers ↔ ∃ t after, LastInsertion calls p t after ∧
      (inserted after).card < max capacity 1 ∧
        ∀ now ttl, (now, .prune ttl) ∈ after → now - t ≤ ttl) ∧
    (∀ p, s.contains p = true ↔ p ∈ s.peers) ∧
    s.peers.Nodup ∧
    (s.peers.Pairwise fun p q => ∃ t after, LastInsertion calls q t after ∧ p ∈ inserted after) ∧
    s.size = s.peers.length ∧ s.size ≤ max capacity 1 ∧
    ∀ c : Call, (∀ p, c ≠ .insert p) → (∀ ttl, c ≠ .prune ttl) → ∀ now, (s.call now c).2 = s := by
  have hrun := hs ▸ run_sightings capacity horder
  have hsub : s.sightings.Sublist (recency calls) :=
    hrun ▸ List.filter_sublist.trans (List.take_sublist _ _)
  refine ⟨fun p => ⟨fun hp => ?_, ?_⟩, contains_iff_mem s, ?_, ?_, ?_, ?_, ?_⟩
  · obtain ⟨e, he, rfl⟩ := List.mem_map.1 hp
    obtain ⟨after, hlast⟩ := lastInsertion_of_mem (hsub.subset he)
    exact ⟨e.seen, after, hlast, (mem_sightings_iff capacity horder hlast).1 (hs ▸ he)⟩
  · rintro ⟨t, after, hlast, hkept⟩
    have hmem := (mem_sightings_iff capacity horder hlast).2 hkept
    rw [hs] at hmem
    exact List.mem_map_of_mem hmem
  · exact (recency_nodup calls).sublist (hsub.map _)
  · exact List.pairwise_map.2 ((recency_ordered calls).sublist hsub)
  · rw [size, peers, List.length_map]
  · rw [size, hrun]
    exact (List.length_filter_le _ _).trans (List.length_take_le _ _)
  · intro c hins hprune now
    cases c with
    | insert p => exact absurd rfl (hins p)
    | prune ttl => exact absurd rfl (hprune ttl)
    | _ => rfl

/-- Three peers, one of them seen twice, in a set of two that is then pruned. -/
def meetings : List (Time × Call) :=
  [(0, .insert ⟨.sha256, [1]⟩), (1, .insert ⟨.sha256, [2]⟩), (2, .insert ⟨.sha256, [1]⟩),
    (3, .insert ⟨.sha256, [3]⟩), (10, .contains ⟨.sha256, [2]⟩), (10, .prune 8)]

theorem run_spec_meetings :
    InOrder meetings ∧ ((empty 2).run meetings).peers = [⟨.sha256, [3]⟩, ⟨.sha256, [1]⟩] ∧
      ⟨.sha256, [1]⟩ ∈ ((empty 2).run meetings).peers ∧
        ⟨.sha256, [2]⟩ ∉ ((empty 2).run meetings).peers := by
  have horder : InOrder meetings := by unfold InOrder; decide
  have hmem := (run_spec horder (s := (empty 2).run meetings) rfl).1
  refine ⟨horder, by decide, (hmem _).2 ⟨2, meetings.drop 3, ⟨⟨meetings.take 2, rfl⟩, ?_⟩, ?_, ?_⟩,
    by decide⟩
  · decide
  · decide
  · simp [meetings]

end Quorum.PeerSet
