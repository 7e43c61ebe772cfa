import Mathlib
import Quorum.Proofs.Network.SelectLoop
import Quorum.Proofs.Vote.Decision

/-!
# What a broadcast comes to

`votes` are the ballots of the peers whose outputs carry the request's id and come in time,
whoever comes first. When the loop ends it has taken exactly these (`Inv.ballots_perm`) and the
time is that of the last end, or the deadline (`Inv.clock_eq`). So a broadcast comes to the same
in every order of its steps (`ends_spec`), and `run` is what it comes to.
-/

namespace Quorum.Broadcast

/-- The ballot of a peer, if its answer counts. -/
def vote? (s : Settings) (id : String) (ask : PeerId → Reply) (p : PeerId) : Option Ballot :=
  match ask p with
  | ⟨some d, .ok (.output id' v)⟩ =>
    if id' = id ∧ d ≤ s.timeout ∧ d < s.deadline then some ⟨p, v⟩ else none
  | _ => none

def votes (s : Settings) (id : String) (ask : PeerId → Reply) (peers : List PeerId) :
    List Ballot :=
  peers.filterMap (vote? s id ask)

/-- When a request ends: with its reply, or at its time limit. -/
def endTime (timeout : Time) (r : Reply) : Time :=
  match r.delay with
  | some d => min d timeout
  | none => timeout

/-- When the last request ends. -/
def lastEnd (timeout : Time) (ask : PeerId → Reply) (peers : List PeerId) : Time :=
  (peers.map fun p => endTime timeout (ask p)).foldr max 0

/-- The ways that a broadcast may end. -/
inductive Ends (s : Settings) (peers : List PeerId) (request : Request) (ask : PeerId → Reply) :
    Run → Prop where
  | refused {e : VoteError} (h : s.policy.allow peers.length = .error e) :
      Ends s peers request ask ⟨[], [], .error e, 0⟩
  | ended {n : Nat} {l : Loop} (h : s.policy.allow peers.length = .ok ())
      (hrun : StepsN s request ask n (Loop.start peers) l) (hl : l.ended = true) :
      Ends s peers request ask
        ⟨l.sent, l.taken, conclude s.policy (l.ballots request.id) peers.length, l.clock⟩

variable {s : Settings} {request : Request} {ask : PeerId → Reply} {peers : List PeerId}

/-! ## One request -/

theorem complete_time (timeout : Time) (p : PeerId) (r : Reply) :
    (complete timeout p r).time = endTime timeout r := by
  rcases r with ⟨_ | d, result⟩
  · rfl
  · by_cases hd : d ≤ timeout
    · simp only [complete, endTime, hd, if_true]
      exact (Nat.min_eq_left hd).symm
    · simp only [complete, endTime, hd, if_false]
      exact (Nat.min_eq_right (Nat.le_of_not_le hd)).symm

/-- The ballot of a completed request, if it came before the deadline. -/
def timely? (id : String) (deadline : Time) (c : Completion) : Option Ballot :=
  if c.time < deadline then ballot? id c else none

theorem timely?_complete (id : String) (p : PeerId) :
    timely? id s.deadline (complete s.timeout p (ask p)) = vote? s id ask p := by
  unfold timely? complete vote?
  rcases ask p with ⟨_ | d, result⟩
  · simp [ballot?]
  · by_cases hd : d ≤ s.timeout
    · rcases result with e | (⟨id', v⟩ | ⟨id', m⟩)
      · simp [ballot?, hd]
      · by_cases hlate : d < s.deadline <;> by_cases hid : id' = id <;>
          simp [ballot?, hd, hlate, hid]
      · simp [ballot?, hd]
    · rcases result with e | (⟨id', v⟩ | ⟨id', m⟩) <;> simp [ballot?, hd]

/-- What ends at the deadline is a time limit. -/
theorem ballot?_complete_eq_none {id : String} {p : PeerId} {r : Reply}
    (hne : r.delay ≠ some s.deadline) (ht : (complete s.timeout p r).time = s.deadline) :
    ballot? id (complete s.timeout p r) = none := by
  rcases r with ⟨_ | d, result⟩
  · rfl
  · by_cases hd : d ≤ s.timeout
    · simp only [complete, hd, if_true] at ht
      exact absurd (congrArg some ht) hne
    · simp [complete, hd, ballot?]

/-! ## The loop at its end -/

theorem Inv.sent_perm {l : Loop} (h : Inv s request ask peers l) (hl : l.ended = true) :
    l.sent.Perm (peers.map fun p => (p, request)) := by
  have hasked := h.asked
  rw [(h.final hl).1, List.append_nil] at hasked
  have hsent : l.sent = (l.sent.map Prod.fst).map fun p => (p, request) := by
    rw [List.map_map]
    conv_lhs => rw [← List.map_id l.sent]
    exact List.map_congr_left fun x hx => Prod.ext rfl (h.requests x hx)
  rw [hsent]
  exact hasked.map _

theorem Inv.ends_perm {l : Loop} (h : Inv s request ask peers l) (hl : l.ended = true) :
    (l.taken ++ l.pending).Perm (peers.map fun p => complete s.timeout p (ask p)) := by
  refine h.ends.trans ?_
  have := (h.sent_perm hl).map fun x => complete s.timeout x.1 (ask x.1)
  rwa [List.map_map] at this

theorem Inv.ballots_perm {l : Loop} (h : Inv s request ask peers l) (hl : l.ended = true)
    (hne : ∀ p ∈ peers, (ask p).delay ≠ some s.deadline) :
    (l.ballots request.id).Perm (votes s request.id ask peers) := by
  have htaken : l.ballots request.id =
      l.taken.filterMap (timely? request.id s.deadline) := by
    refine List.filterMap_congr fun c hc => ?_
    obtain ⟨p, hp, rfl⟩ := List.mem_map.1 ((h.ends_perm hl).mem_iff.1 (List.mem_append_left _ hc))
    by_cases hlt : (complete s.timeout p (ask p)).time < s.deadline
    · rw [timely?, if_pos hlt]
    · have heq := ((h.past _ hc).trans h.limit).antisymm (Nat.le_of_not_lt hlt)
      rw [timely?, if_neg hlt, ballot?_complete_eq_none (hne p hp) heq]
  have hpending : l.pending.filterMap (timely? request.id s.deadline) = [] := by
    rcases (h.final hl).2 with hnil | hclock
    · rw [hnil, List.filterMap_nil]
    · refine List.filterMap_eq_nil_iff.2 fun c hc => ?_
      have hge := h.future c hc
      rw [hclock] at hge
      exact if_neg (Nat.not_lt_of_le hge)
  have hperm := (h.ends_perm hl).filterMap (timely? request.id s.deadline)
  rw [List.filterMap_append, hpending, List.append_nil, ← htaken, List.filterMap_map] at hperm
  rwa [votes, ← funext (timely?_complete request.id)]

theorem lastEnd_le {t : Time} (h : ∀ p ∈ peers, endTime s.timeout (ask p) ≤ t) :
    lastEnd s.timeout ask peers ≤ t := by
  refine List.max_le_of_forall_le _ _ fun d hd => ?_
  obtain ⟨p, hp, rfl⟩ := List.mem_map.1 hd
  exact h p hp

theorem le_lastEnd {p : PeerId} (hp : p ∈ peers) :
    endTime s.timeout (ask p) ≤ lastEnd s.timeout ask peers :=
  List.le_max_of_le (List.mem_map_of_mem hp) le_rfl

theorem Inv.clock_eq {l : Loop} (h : Inv s request ask peers l) (hl : l.ended = true) :
    l.clock = min s.deadline (lastEnd s.timeout ask peers) := by
  have hperm := h.ends_perm hl
  have hle : l.clock ≤ lastEnd s.timeout ask peers := by
    rcases h.reached with h0 | ⟨c, hc, hle⟩
    · rw [h0]
      exact Nat.zero_le _
    · obtain ⟨p, hp, rfl⟩ := List.mem_map.1 (hperm.mem_iff.1 hc)
      rw [complete_time] at hle
      exact hle.trans (le_lastEnd hp)
  rcases (h.final hl).2 with hnil | hclock
  · -- Nothing is pending: every request has been taken.
    have hge : lastEnd s.timeout ask peers ≤ l.clock := by
      refine lastEnd_le fun p hp => ?_
      rw [hnil, List.append_nil] at hperm
      have := h.past _ (hperm.mem_iff.2 (List.mem_map_of_mem hp))
      rwa [complete_time] at this
    rw [hle.antisymm hge]
    exact (Nat.min_eq_right (hge.trans h.limit)).symm
  · rw [← hclock]
    exact (Nat.min_eq_left hle).symm

/-! ## The run in order of time -/

theorem takeWhile_eq_filter {order : List Completion} {deadline : Time}
    (h : order.Pairwise fun a b => a.time ≤ b.time) :
    order.takeWhile (·.time < deadline) = order.filter (·.time < deadline) := by
  induction order with
  | nil => rfl
  | cons c order ih =>
    rw [List.pairwise_cons] at h
    by_cases hc : c.time < deadline
    · rw [List.takeWhile_cons_of_pos (by simpa using hc), List.filter_cons_of_pos (by simpa using hc),
        ih h.2]
    · rw [List.takeWhile_cons_of_neg (by simpa using hc), List.filter_cons_of_neg (by simpa using hc)]
      refine (List.filter_eq_nil_iff.2 fun c' hc' => ?_).symm
      simpa using (Nat.le_of_not_lt hc).trans (h.1 c' hc')

theorem completions_perm (s : Settings) (peers : List PeerId) (ask : PeerId → Reply) :
    (completions s peers ask).Perm (peers.map fun p => complete s.timeout p (ask p)) :=
  List.mergeSort_perm _ _

theorem gather_perm :
    (gather request.id s.deadline (completions s peers ask)).Perm
      (votes s request.id ask peers) := by
  have hsorted : (completions s peers ask).Pairwise fun a b => a.time ≤ b.time := by
    have h := @List.pairwise_mergeSort Completion (fun a b => decide (a.time ≤ b.time))
      (fun a b c hab hbc => by
        simp only [decide_eq_true_eq] at hab hbc ⊢
        exact hab.trans hbc)
      (fun a b => by simpa using Nat.le_total a.time b.time)
    exact (h _).imp of_decide_eq_true
  have hgather : gather request.id s.deadline (completions s peers ask) =
      (completions s peers ask).filterMap (timely? request.id s.deadline) := by
    rw [gather, inTime, takeWhile_eq_filter hsorted, List.filterMap_filter]
    refine List.filterMap_congr fun c _ => ?_
    by_cases hc : c.time < s.deadline <;> simp [timely?, hc]
  have hperm := (completions_perm s peers ask).filterMap
    (timely? request.id s.deadline)
  rw [List.filterMap_map] at hperm
  rwa [hgather, votes, ← funext (timely?_complete request.id)]

theorem duration_eq : duration s.deadline (completions s peers ask) =
    min s.deadline (lastEnd s.timeout ask peers) := by
  have hfold (order : List Completion) (t : Time) :
      order.foldl (fun t c => max t c.time) t = max t ((order.map (·.time)).foldr max 0) := by
    induction order generalizing t with
    | nil => exact (Nat.max_eq_left (Nat.zero_le t)).symm
    | cons c order ih => rw [List.foldl_cons, ih, List.map_cons, List.foldr_cons, max_assoc]
  have htimes : ((completions s peers ask).map (·.time)).Perm
      (peers.map fun p => endTime s.timeout (ask p)) := by
    have h := (completions_perm s peers ask).map (·.time)
    rw [List.map_map] at h
    simpa only [Function.comp_def, complete_time] using h
  rw [duration, hfold, Nat.max_eq_right (Nat.zero_le _), htimes.foldr_eq 0, lastEnd]

/-! ## The broadcast -/

theorem votes_valid (hvalid : ∀ p ∈ peers, ∀ id v, (ask p).result = .ok (.output id v) → v.Valid)
    {id : String} {b : Ballot} (hb : b ∈ votes s id ask peers) : b.output.Valid := by
  obtain ⟨p, hp, hv⟩ := List.mem_filterMap.1 hb
  have hask := hvalid p hp
  unfold vote? at hv
  split at hv
  · rename_i d id' v heq
    split at hv
    · obtain rfl := Option.some.inj hv
      exact hask id' v (by rw [heq])
    · cases hv
  · cases hv

theorem conclude_perm (p : Policy) {ballots ballots' : List Ballot} (queried : Nat)
    (hvalid : ∀ b ∈ ballots, b.output.Valid) (hp : ballots'.Perm ballots) :
    conclude p ballots' queried = conclude p ballots queried := by
  unfold conclude
  rw [hp.length_eq, Vote.decide_perm p queried hvalid hp.symm]

/-- What a broadcast that is let through comes to. -/
structure Answered (s : Settings) (peers : List PeerId) (request : Request)
    (ask : PeerId → Reply) (r : Run) : Prop where
  sent : r.sent.Perm (peers.map fun p => (p, request))
  few : (votes s request.id ask peers).length < s.policy.minPeers →
    r.result = .error (.insufficientResponses s.policy.minPeers
      (votes s request.id ask peers).length)
  enough : s.policy.minPeers ≤ (votes s request.id ask peers).length →
    r.result = s.policy.decide (votes s request.id ask peers) peers.length
  elapsed : r.elapsed = min s.deadline (lastEnd s.timeout ask peers)

theorem answered_conclude {sent : List (PeerId × Request)} {taken : List Completion}
    {ballots : List Ballot} {elapsed : Time}
    (hvalid : ∀ p ∈ peers, ∀ id v, (ask p).result = .ok (.output id v) → v.Valid)
    (hsent : sent.Perm (peers.map fun p => (p, request)))
    (hballots : ballots.Perm (votes s request.id ask peers))
    (helapsed : elapsed = min s.deadline (lastEnd s.timeout ask peers)) :
    Answered s peers request ask
      ⟨sent, taken, conclude s.policy ballots peers.length, elapsed⟩ := by
  rw [conclude_perm s.policy peers.length (fun _ hb => votes_valid hvalid hb) hballots]
  exact ⟨hsent, fun h => if_pos h, fun h => if_neg (Nat.not_lt.2 h), helapsed⟩

theorem Answered.agree {r r' : Run} (h : Answered s peers request ask r)
    (h' : Answered s peers request ask r') :
    r.result = r'.result ∧ r.elapsed = r'.elapsed ∧ r.sent.Perm r'.sent := by
  refine ⟨?_, h.elapsed.trans h'.elapsed.symm, h.sent.trans h'.sent.symm⟩
  rcases Nat.lt_or_ge (votes s request.id ask peers).length s.policy.minPeers with hlt | hge
  · rw [h.few hlt, h'.few hlt]
  · rw [h.enough hge, h'.enough hge]

theorem allow_eq (p : Policy) (available : Nat) : p.allow available =
    if available < p.minPeers then .error (.insufficientPeers p.minPeers available) else .ok () :=
  rfl

theorem ends_answered (hd : 0 < s.deadline)
    (hne : ∀ p ∈ peers, (ask p).delay ≠ some s.deadline)
    (hvalid : ∀ p ∈ peers, ∀ id v, (ask p).result = .ok (.output id v) → v.Valid)
    (hmin : s.policy.minPeers ≤ peers.length) {r : Run} (h : Ends s peers request ask r) :
    Answered s peers request ask r := by
  cases h with
  | refused h =>
    rw [allow_eq, if_neg (Nat.not_lt.2 hmin)] at h
    cases h
  | ended _ hrun hl =>
    have hinv := hrun.inv hd
    exact answered_conclude hvalid (hinv.sent_perm hl) (hinv.ballots_perm hl hne) (hinv.clock_eq hl)

theorem run_answered
    (hvalid : ∀ p ∈ peers, ∀ id v, (ask p).result = .ok (.output id v) → v.Valid)
    (hmin : s.policy.minPeers ≤ peers.length) :
    Answered s peers request ask (run s peers request ask) := by
  rw [run, allow_eq, if_neg (Nat.not_lt.2 hmin)]
  exact answered_conclude hvalid (.refl _) gather_perm duration_eq

theorem ends_of_few (hmin : peers.length < s.policy.minPeers) (r : Run) :
    Ends s peers request ask r ↔
      r = ⟨[], [], .error (.insufficientPeers s.policy.minPeers peers.length), 0⟩ := by
  have hallow := allow_eq s.policy peers.length
  rw [if_pos hmin] at hallow
  constructor
  · rintro (h | ⟨h, -, -⟩)
    · rw [hallow] at h
      cases h
      rfl
    · rw [hallow] at h
      cases h
  · rintro rfl
    exact .refused hallow

/-- **A broadcast comes to the same in every order of its steps.** It ends after a bounded number
of steps and never gets stuck before. Too few peers are refused with nothing sent; otherwise each
peer is sent the one request, the vote is over the answers in time, and the time is that of the
last end or the deadline. -/
theorem ends_spec (s : Settings) (peers : List PeerId) (request : Request)
    (ask : PeerId → Reply) (hd : 0 < s.deadline)
    (hne : ∀ p ∈ peers, (ask p).delay ≠ some s.deadline)
    (hvalid : ∀ p ∈ peers, ∀ id v, (ask p).result = .ok (.output id v) → v.Valid) :
    (peers.length < s.policy.minPeers → ∀ r, Ends s peers request ask r ↔
      r = ⟨[], [], .error (.insufficientPeers s.policy.minPeers peers.length), 0⟩) ∧
    (s.policy.minPeers ≤ peers.length → ∀ r, Ends s peers request ask r →
      Answered s peers request ask r) ∧
    (∃ r, Ends s peers request ask r) ∧
    (∀ n l, StepsN s request ask n (Loop.start peers) l →
      n ≤ 2 * peers.length + s.deadline + 1 ∧
        (l.ended = false → ∃ l', Step s request ask l l')) ∧
    ∀ r, Ends s peers request ask r →
      r.result = (run s peers request ask).result ∧
        r.elapsed = (run s peers request ask).elapsed ∧
        r.sent.Perm (run s peers request ask).sent := by
  refine ⟨fun hmin r => ends_of_few hmin r, fun hmin r h => ends_answered hd hne hvalid hmin h, ?_,
    fun n l h => ⟨h.length_le, exists_step s request ask⟩, fun r h => ?_⟩
  · rcases Nat.lt_or_ge peers.length s.policy.minPeers with hlt | hge
    · exact ⟨_, (ends_of_few hlt _).2 rfl⟩
    · obtain ⟨n, l, hrun, hl⟩ := exists_ended (StepsN.zero (Loop.start peers))
      exact ⟨_, .ended ((allow_eq _ _).trans (if_neg (Nat.not_lt.2 hge))) hrun hl⟩
  · rcases Nat.lt_or_ge peers.length s.policy.minPeers with hlt | hge
    · obtain rfl := (ends_of_few hlt r).1 h
      rw [run, allow_eq, if_pos hlt]
      exact ⟨rfl, rfl, .refl _⟩
    · exact (ends_answered hd hne hvalid hge h).agree (run_answered hvalid hge)

/-- One peer answers at its time limit, one never. -/
def twoReplies (p : PeerId) : Reply :=
  if p.kind = .sha256 then ⟨some 5, .ok (.output "id" (.bool true))⟩
  else ⟨none, .error (.transport "")⟩

theorem ends_spec_twoReplies :
    (∀ p ∈ [⟨.sha256, [1]⟩, ⟨.identity, [2]⟩], (twoReplies p).delay ≠ some 9) ∧
      ∃ r, Ends ⟨⟨1, Double.zero⟩, 5, 9⟩ [⟨.sha256, [1]⟩, ⟨.identity, [2]⟩] ⟨"id", "m", .null⟩
        twoReplies r ∧
          Answered ⟨⟨1, Double.zero⟩, 5, 9⟩ [⟨.sha256, [1]⟩, ⟨.identity, [2]⟩] ⟨"id", "m", .null⟩
            twoReplies r := by
  have hne : ∀ p ∈ [⟨.sha256, [1]⟩, ⟨.identity, [2]⟩], (twoReplies p).delay ≠ some 9 := by
    decide
  have hvalid : ∀ p ∈ [⟨.sha256, [1]⟩, ⟨.identity, [2]⟩], ∀ id v,
      (twoReplies p).result = .ok (.output id v) → v.Valid := by
    intro p _ id v h
    unfold twoReplies at h
    split at h <;> cases h
    trivial
  have hspec := ends_spec ⟨⟨1, Double.zero⟩, 5, 9⟩ _ ⟨"id", "m", .null⟩ twoReplies (by decide)
    hne hvalid
  obtain ⟨r, hr⟩ := hspec.2.2.1
  exact ⟨hne, r, hr, hspec.2.1 (by decide) r hr⟩

end Quorum.Broadcast
