import Mathlib
import Quorum.Network.Broadcast

/-!
# The loop of a broadcast

A broadcast waits for whichever comes first, the end of one of its requests or the deadline.
`Step` is one step of that wait, in any order that time allows: a request goes out, a request
that has ended is taken, time passes up to the next event, the deadline cuts the wait short, or
nothing is left to wait for. `Inv` relates what was taken to the clock and holds along every
run (`StepsN.inv`). Every step brings the end closer (`Step.left_lt`) and before the end there
always is one (`exists_step`), so the loop ends on every run (`exists_ended`).
-/

namespace Quorum.Broadcast

/-- The loop's state. -/
structure Loop where
  /-- The time since the start. -/
  clock : Nat
  /-- The peers whose requests have not gone out yet. -/
  waiting : List PeerId
  /-- The requests that are out, by how they will end. -/
  pending : List Completion
  sent : List (PeerId × Request)
  /-- The ends taken so far. -/
  taken : List Completion
  ended : Bool

/-- The state before the first request goes out. -/
def Loop.start (peers : List PeerId) : Loop := ⟨0, peers, [], [], [], false⟩

def Loop.ballots (id : String) (l : Loop) : List Ballot := l.taken.filterMap (ballot? id)

section

variable (s : Settings) (request : Request) (ask : PeerId → Reply)

inductive Step : Loop → Loop → Prop where
  /-- Any of the waiting requests goes out; its time limit counts from now. -/
  | dispatch {l : Loop} {p : PeerId} {rest : List PeerId} (hl : l.ended = false)
      (hp : l.waiting.Perm (p :: rest)) :
      Step l { l with
        waiting := rest
        sent := l.sent ++ [(p, request)]
        pending := ⟨p, l.clock + (complete s.timeout p (ask p)).time,
          (complete s.timeout p (ask p)).result⟩ :: l.pending }
  /-- Any request that has ended is taken. -/
  | take {l : Loop} {c : Completion} {rest : List Completion} (hl : l.ended = false)
      (hc : l.pending.Perm (c :: rest)) (hdue : c.time ≤ l.clock) :
      Step l { l with pending := rest, taken := l.taken ++ [c] }
  /-- While all requests are out and none has ended, time passes; it skips neither the end of a
  request nor the deadline. -/
  | tick {l : Loop} {t : Nat} (hl : l.ended = false) (hw : l.waiting = []) (hp : l.pending ≠ [])
      (hnone : ∀ c ∈ l.pending, l.clock < c.time) (hlt : l.clock < t) (ht : t ≤ s.deadline)
      (hnext : ∀ c ∈ l.pending, t ≤ c.time) : Step l { l with clock := t }
  | deadline {l : Loop} (hl : l.ended = false) (hd : s.deadline ≤ l.clock) :
      Step l { l with ended := true }
  | done {l : Loop} (hl : l.ended = false) (hw : l.waiting = []) (hp : l.pending = []) :
      Step l { l with ended := true }

inductive StepsN : Nat → Loop → Loop → Prop where
  | zero (l : Loop) : StepsN 0 l l
  | succ {n : Nat} {l l' l'' : Loop} : StepsN n l l' → Step s request ask l' l'' →
      StepsN (n + 1) l l''

/-- What holds of every state of a loop that asks `peers`. -/
structure Inv (peers : List PeerId) (l : Loop) : Prop where
  asked : (l.sent.map Prod.fst ++ l.waiting).Perm peers
  requests : ∀ x ∈ l.sent, x.2 = request
  ends : (l.taken ++ l.pending).Perm (l.sent.map fun x => complete s.timeout x.1 (ask x.1))
  past : ∀ c ∈ l.taken, c.time ≤ l.clock
  future : ∀ c ∈ l.pending, l.clock ≤ c.time
  early : l.waiting ≠ [] → l.clock = 0
  limit : l.clock ≤ s.deadline
  /-- Time does not pass beyond the last end. -/
  reached : l.clock = 0 ∨ ∃ c ∈ l.taken ++ l.pending, l.clock ≤ c.time
  final : l.ended = true → l.waiting = [] ∧ (l.pending = [] ∨ l.clock = s.deadline)

end

variable {s : Settings} {request : Request} {ask : PeerId → Reply} {peers : List PeerId}

/-! ## The invariant -/

theorem inv_start : Inv s request ask peers (Loop.start peers) where
  asked := .refl _
  requests := by simp [Loop.start]
  ends := .refl _
  past := by simp [Loop.start]
  future := by simp [Loop.start]
  early := fun _ => rfl
  limit := Nat.zero_le _
  reached := .inl rfl
  final := fun h => nomatch h

theorem inv_dispatch {l : Loop} {p : PeerId} {rest : List PeerId} (h : Inv s request ask peers l)
    (hl : l.ended = false) (hp : l.waiting.Perm (p :: rest)) :
    Inv s request ask peers { l with
      waiting := rest
      sent := l.sent ++ [(p, request)]
      pending := ⟨p, l.clock + (complete s.timeout p (ask p)).time,
        (complete s.timeout p (ask p)).result⟩ :: l.pending } := by
  have hclock : l.clock = 0 := h.early fun hnil => by
    rw [hnil] at hp
    exact absurd hp.nil_eq (List.cons_ne_nil _ _).symm
  have hpeer : (complete s.timeout p (ask p)).peer = p := by
    unfold complete
    dsimp only
    split
    · split <;> rfl
    · rfl
  have hcompletion : (⟨p, l.clock + (complete s.timeout p (ask p)).time,
      (complete s.timeout p (ask p)).result⟩ : Completion) = complete s.timeout p (ask p) := by
    rw [hclock, Nat.zero_add]
    exact congrArg (Completion.mk · _ _) hpeer.symm
  rw [hcompletion]
  refine ⟨?_, ?_, ?_, h.past, ?_, fun _ => hclock, h.limit, .inl hclock, fun hended => ?_⟩
  · refine List.Perm.trans ?_ h.asked
    rw [List.map_append, List.append_assoc]
    exact hp.symm.append_left _
  · intro x hx
    rcases List.mem_append.1 hx with hx | hx
    · exact h.requests x hx
    · rw [List.mem_singleton.1 hx]
  · rw [List.map_append]
    exact List.perm_middle.trans ((h.ends.cons _).trans (List.perm_append_singleton _ _).symm)
  · intro c hc
    exact hclock ▸ Nat.zero_le _
  · rw [hl] at hended
    cases hended

theorem inv_take {l : Loop} {c : Completion} {rest : List Completion}
    (h : Inv s request ask peers l) (hl : l.ended = false) (hc : l.pending.Perm (c :: rest))
    (hdue : c.time ≤ l.clock) :
    Inv s request ask peers { l with pending := rest, taken := l.taken ++ [c] } := by
  have hends : (l.taken ++ [c] ++ rest).Perm (l.taken ++ l.pending) := by
    rw [List.append_assoc]
    exact hc.symm.append_left _
  refine ⟨h.asked, h.requests, hends.trans h.ends, ?_, ?_, h.early, h.limit, ?_, fun hended => ?_⟩
  · intro c' hc'
    rcases List.mem_append.1 hc' with hc' | hc'
    · exact h.past c' hc'
    · rw [List.mem_singleton.1 hc']
      exact hdue
  · intro c' hc'
    exact h.future c' (hc.mem_iff.2 (List.mem_cons_of_mem _ hc'))
  · rcases h.reached with h0 | ⟨c', hc', hle⟩
    · exact .inl h0
    · exact .inr ⟨c', hends.mem_iff.2 hc', hle⟩
  · rw [hl] at hended
    cases hended

theorem inv_tick {l : Loop} {t : Nat} (h : Inv s request ask peers l) (hl : l.ended = false)
    (hw : l.waiting = []) (hp : l.pending ≠ []) (hlt : l.clock < t) (ht : t ≤ s.deadline)
    (hnext : ∀ c ∈ l.pending, t ≤ c.time) :
    Inv s request ask peers { l with clock := t } := by
  obtain ⟨c, hc⟩ := List.exists_mem_of_ne_nil _ hp
  refine ⟨h.asked, h.requests, h.ends, fun c' hc' => (h.past c' hc').trans hlt.le, hnext,
    fun hne => absurd hw hne, ht, .inr ⟨c, List.mem_append_right _ hc, hnext c hc⟩,
    fun hended => ?_⟩
  rw [hl] at hended
  cases hended

theorem inv_ended {l : Loop} (h : Inv s request ask peers l)
    (hfinal : l.waiting = [] ∧ (l.pending = [] ∨ l.clock = s.deadline)) :
    Inv s request ask peers { l with ended := true } :=
  ⟨h.asked, h.requests, h.ends, h.past, h.future, h.early, h.limit, h.reached, fun _ => hfinal⟩

theorem Step.inv (hd : 0 < s.deadline) {l l' : Loop} (hs : Step s request ask l l')
    (h : Inv s request ask peers l) : Inv s request ask peers l' := by
  cases hs with
  | dispatch hl hp => exact inv_dispatch h hl hp
  | take hl hc hdue => exact inv_take h hl hc hdue
  | tick hl hw hp _ hlt ht hnext => exact inv_tick h hl hw hp hlt ht hnext
  | deadline hl hdl =>
    -- All requests went out at time zero, and the deadline is later.
    have hclock : l.clock = s.deadline := h.limit.antisymm hdl
    have hw : l.waiting = [] := by
      by_contra hne
      rw [h.early hne] at hclock
      exact absurd hclock hd.ne
    exact inv_ended h ⟨hw, .inr hclock⟩
  | done hl hw hp => exact inv_ended h ⟨hw, .inl hp⟩

/-- **The invariant holds along every run.** -/
theorem StepsN.inv (hd : 0 < s.deadline) {n : Nat} {l : Loop}
    (hs : StepsN s request ask n (Loop.start peers) l) : Inv s request ask peers l := by
  generalize hstart : Loop.start peers = l₀ at hs
  induction hs with
  | zero => exact hstart ▸ inv_start
  | succ _ hstep ih => exact hstep.inv hd (ih hstart)

/-! ## The end -/

/-- A bound on the number of steps that are left. -/
def Loop.left (s : Settings) (l : Loop) : Nat :=
  if l.ended then 0 else 2 * l.waiting.length + l.pending.length + (s.deadline - l.clock) + 1

theorem Step.left_lt {l l' : Loop} (hs : Step s request ask l l') : l'.left s < l.left s := by
  cases hs with
  | dispatch hl hp =>
    have := hp.length_eq
    simp only [Loop.left, hl, List.length_cons, Bool.false_eq_true, if_false] at this ⊢
    omega
  | take hl hc hdue =>
    have := hc.length_eq
    simp only [Loop.left, hl, List.length_cons, Bool.false_eq_true, if_false] at this ⊢
    omega
  | tick hl hw hp _ hlt ht hnext =>
    simp only [Loop.left, hl, Bool.false_eq_true, if_false]
    omega
  | deadline hl hdl => simp [Loop.left, hl]
  | done hl hw hp => simp [Loop.left, hl]

theorem StepsN.left_le {n : Nat} {l l' : Loop} (hs : StepsN s request ask n l l') :
    n + l'.left s ≤ l.left s := by
  induction hs with
  | zero => omega
  | succ _ hstep ih =>
    have := hstep.left_lt
    omega

/-- A run takes at most two steps for each peer and one for each unit of time. -/
theorem StepsN.length_le {n : Nat} {l : Loop}
    (hs : StepsN s request ask n (Loop.start peers) l) :
    n ≤ 2 * peers.length + s.deadline + 1 := by
  have := hs.left_le
  simp only [Loop.left, Loop.start, Bool.false_eq_true, if_false, List.length_nil] at this
  omega

theorem exists_step (s : Settings) (request : Request) (ask : PeerId → Reply) {l : Loop}
    (hl : l.ended = false) : ∃ l', Step s request ask l l' := by
  cases hw : l.waiting with
  | cons p rest => exact ⟨_, .dispatch hl (.of_eq hw)⟩
  | nil =>
    by_cases hp : l.pending = []
    · exact ⟨_, .done hl hw hp⟩
    by_cases hdue : ∃ c ∈ l.pending, c.time ≤ l.clock
    · obtain ⟨c, hc, hdue⟩ := hdue
      obtain ⟨before, after, hsplit⟩ := List.append_of_mem hc
      exact ⟨_, .take hl (hsplit ▸ List.perm_middle) hdue⟩
    · push Not at hdue
      by_cases hd : s.deadline ≤ l.clock
      · exact ⟨_, .deadline hl hd⟩
      · exact ⟨_, .tick hl hw hp hdue (Nat.lt_succ_self _) (Nat.lt_of_not_le hd) hdue⟩

/-- **The loop ends**, however it has run so far. -/
theorem exists_ended {n : Nat} {l₀ l : Loop} (hs : StepsN s request ask n l₀ l) :
    ∃ m l', StepsN s request ask m l₀ l' ∧ l'.ended = true := by
  induction hk : l.left s using Nat.strong_induction_on generalizing n l with
  | _ k ih =>
    cases hl : l.ended with
    | true => exact ⟨n, l, hs, hl⟩
    | false =>
      obtain ⟨l', hstep⟩ := exists_step s request ask hl
      exact ih _ (hk ▸ hstep.left_lt) (.succ hs hstep) rfl

end Quorum.Broadcast
