import Mathlib
import Quorum.Proofs.Selector

/-!
# Queries during an outage

Calls that do not overlap, each at moments of its own (`Visit`). `asked` are those of them that
make a query. In an outage the budget is used up first, then queries are at least a cool-down
apart, so there are no more than `maxAttempts` and one for each cool-down (`length_asked_le`).
A query that succeeds ends the outage for good: from then on the selector answers as a fresh one
(`outage_spec`).
-/

namespace Quorum.Selector

/-- A call that no other one overlaps: when it looks at the state, and when and how the registry
answers it if it makes a query. -/
structure Visit where
  start : Time
  finish : Time
  answer : Answer

def Visit.failed (v : Visit) : Bool :=
  match v.answer with
  | .ok _ => false
  | .error _ => true

/-- Whether the visit begins in the stretch of time of length `span` from `since` on. -/
def Visit.within (since span : Time) (v : Visit) : Bool :=
  decide (since ≤ v.start ∧ v.start ≤ since + span)

/-- Visits one after the other. -/
structure Sequential (vs : List Visit) : Prop where
  forward : ∀ v ∈ vs, v.start ≤ v.finish
  apart : vs.Pairwise fun u v => u.finish ≤ v.start

def visit (s : Settings) (st : Selector) (v : Visit) : Selector × Answer :=
  match gate s st v.start with
  | .error e => (st, .error e)
  | .ok () => settle s st v.finish v.answer

/-- The state after some visits. -/
def after (s : Settings) (st : Selector) (vs : List Visit) : Selector :=
  vs.foldl (fun st v => (visit s st v).1) st

def results (s : Settings) (st : Selector) : List Visit → List Answer
  | [] => []
  | v :: vs => (visit s st v).2 :: results s (visit s st v).1 vs

/-- The visits that make a query. -/
def asked (s : Settings) (st : Selector) : List Visit → List Visit
  | [] => []
  | v :: vs =>
    match gate s st v.start with
    | .error _ => asked s (visit s st v).1 vs
    | .ok () => v :: asked s (visit s st v).1 vs

/-- A state that calls lead to, overlapping or not. -/
def Reachable (s : Settings) (st : Selector) : Prop :=
  ∃ n y, StepsN s n System.start y ∧ (y.trace s).state = st

variable {s : Settings} {st st' : Selector} {v : Visit} {vs us : List Visit} {e b : Time}

/-! ## One visit -/

theorem visit_eq_best (s : Settings) (st : Selector) (now : Time) (d : Delayed) :
    visit s st ⟨now, now + d.wait, d.answer⟩ = best s st now fun _ => d := rfl

/-- A visit is a call whose steps follow one another. -/
theorem run_visit (t : Trace) (call : Nat) (v : Visit) :
    run s t (.start call v.start ::
        (asked s t.state [v]).map fun v => .finish call v.finish v.answer) =
      ⟨(visit s t.state v).1, (call, (visit s t.state v).2) :: t.results⟩ := by
  unfold asked visit run
  cases hg : gate s t.state v.start with
  | error e => simp [step, hg, asked]
  | ok u => simp [step, hg, asked]

theorem gate_exhausted (h : st.exhaustedAt = some e) (now : Time) : gate s st now =
    if now - e < s.cooldown then .error (.exhausted st.attempts) else .ok () := by
  rw [gate, h]

theorem gate_open (h : st.exhaustedAt = none) (now : Time) : gate s st now = .ok () := by
  rw [gate, h]

/-- A visit during the cool-down does nothing. -/
theorem visit_refused (h : st.exhaustedAt = some e) (hv : v.start - e < s.cooldown) :
    visit s st v = (st, .error (.exhausted st.attempts)) := by
  rw [visit, gate_exhausted h, if_pos hv]

theorem visit_passed (h : gate s st v.start = .ok ()) :
    visit s st v = settle s st v.finish v.answer := by
  rw [visit, h]

/-- A query that fails counts, and tells the time once the budget is used up. -/
theorem visit_failed (h : gate s st v.start = .ok ()) (hv : v.failed = true) :
    (visit s st v).1 = ⟨st.current, st.attempts + 1,
      if s.maxAttempts ≤ st.attempts + 1 then some v.finish else st.exhaustedAt⟩ := by
  rw [visit_passed h]
  obtain ⟨start, finish, answer⟩ := v
  cases answer with
  | ok url => cases hv
  | error err =>
    unfold settle
    dsimp only
    split <;> rfl

theorem visit_succeeded {url : String} (h : gate s st v.start = .ok ()) (hv : v.answer = .ok url) :
    visit s st v = (⟨some url, 0, none⟩, .ok url) := by
  rw [visit_passed h, hv, settle]

/-! ## Runs of visits -/

theorem after_append (us vs : List Visit) :
    after s st (us ++ vs) = after s (after s st us) vs := List.foldl_append

theorem asked_cons_refused {err : EndpointError} (h : gate s st v.start = .error err) :
    asked s st (v :: vs) = asked s st vs := by
  rw [asked, visit, h]

theorem asked_cons_passed (h : gate s st v.start = .ok ()) :
    asked s st (v :: vs) = v :: asked s (visit s st v).1 vs := by
  rw [asked, h]

theorem asked_append (us vs : List Visit) :
    asked s st (us ++ vs) = asked s st us ++ asked s (after s st us) vs := by
  induction us generalizing st with
  | nil => rfl
  | cons u us ih =>
    rw [List.cons_append]
    cases hg : gate s st u.start with
    | error err =>
      have hstay : (visit s st u).1 = st := by rw [visit, hg]
      rw [asked_cons_refused hg, asked_cons_refused hg, ih, after, after, List.foldl_cons, hstay]
    | ok _ =>
      rw [asked_cons_passed hg, asked_cons_passed hg, ih, List.cons_append]
      rfl

theorem asked_sublist (st : Selector) (vs : List Visit) : (asked s st vs).Sublist vs := by
  induction vs generalizing st with
  | nil => exact .slnil
  | cons v vs ih =>
    unfold asked
    split
    · exact (ih _).cons v
    · exact (ih _).cons_cons v

/-- Visits during the cool-down do nothing, however many. -/
theorem after_cooling (h : st.exhaustedAt = some e) (hvs : ∀ v ∈ vs, v.start - e < s.cooldown) :
    after s st vs = st ∧ asked s st vs = [] := by
  induction vs with
  | nil => exact ⟨rfl, rfl⟩
  | cons v vs ih =>
    have hv := hvs v List.mem_cons_self
    obtain ⟨hstay, hnone⟩ := ih fun u hu => hvs u (List.mem_cons_of_mem _ hu)
    have hgate : gate s st v.start = .error (.exhausted st.attempts) := by
      rw [gate_exhausted h, if_pos hv]
    refine ⟨?_, (asked_cons_refused hgate).trans hnone⟩
    rw [after, List.foldl_cons, visit_refused h hv]
    exact hstay

/-! ## The invariant -/

/-- The budget is used up exactly when the state says since when. -/
def Sound (s : Settings) (st : Selector) : Prop :=
  st.exhaustedAt.isSome ↔ s.maxAttempts ≤ st.attempts

theorem Reachable.sound (hmax : 0 < s.maxAttempts) (h : Reachable s st) : Sound s st := by
  obtain ⟨n, y, hrun, rfl⟩ := h
  rw [(hrun.inv hmax).state]
  by_cases hle : s.maxAttempts ≤ streak y.updates
  · simp only [Sound, stateAfter, hle, if_true, iff_true]
    exact lastFailure_isSome (hmax.trans_le hle)
  · simp [Sound, stateAfter, hle]

theorem Sound.visit (hmax : 0 < s.maxAttempts) (h : Sound s st) (v : Visit) :
    Sound s (visit s st v).1 := by
  cases hg : gate s st v.start with
  | error err => rwa [Selector.visit, hg]
  | ok _ =>
    cases hv : v.answer with
    | ok url => simpa [visit_succeeded hg hv, Sound] using hmax.ne'
    | error err =>
      rw [visit_failed hg (by rw [Visit.failed, hv])]
      unfold Sound at h ⊢
      dsimp only
      split
      · rename_i hle
        exact iff_of_true rfl hle
      · rename_i hlt
        exact iff_of_false (fun hsome => hlt ((h.1 hsome).trans (Nat.le_succ _))) hlt

theorem Sound.after (hmax : 0 < s.maxAttempts) (h : Sound s st) (vs : List Visit) :
    Sound s (after s st vs) := by
  induction vs generalizing st with
  | nil => exact h
  | cons v vs ih => exact ih (h.visit hmax v)

/-! ## Stretches of time -/

theorem Sequential.tail (h : Sequential (v :: vs)) : Sequential vs :=
  ⟨fun u hu => h.forward u (List.mem_cons_of_mem _ hu), h.apart.of_cons⟩

theorem Sequential.start_le (h : Sequential (v :: vs)) : ∀ u ∈ vs, v.start ≤ u.start := by
  intro u hu
  have hnext := (List.pairwise_cons.1 h.apart).1 u hu
  exact (h.forward v List.mem_cons_self).trans hnext

theorem Sequential.of_append (h : Sequential (us ++ vs)) : Sequential us ∧ Sequential vs := by
  obtain ⟨hus, hvs, -⟩ := List.pairwise_append.1 h.apart
  exact ⟨⟨fun v hv => h.forward v (List.mem_append_left _ hv), hus⟩,
    ⟨fun v hv => h.forward v (List.mem_append_right _ hv), hvs⟩⟩

/-- Visits before a moment, and visits from it on. -/
theorem Sequential.exists_split (h : Sequential vs) (b : Time) : ∃ us ws, vs = us ++ ws ∧
    (∀ u ∈ us, u.start < b) ∧ ∀ w ∈ ws, b ≤ w.start := by
  induction vs with
  | nil => exact ⟨[], [], rfl, nofun, nofun⟩
  | cons v vs ih =>
    by_cases hv : v.start < b
    · obtain ⟨us, ws, rfl, hus, hws⟩ := ih h.tail
      exact ⟨v :: us, ws, rfl, List.forall_mem_cons.2 ⟨hv, hus⟩, hws⟩
    · have hle : b ≤ v.start := Nat.le_of_not_lt hv
      exact ⟨[], v :: vs, rfl, nofun,
        List.forall_mem_cons.2 ⟨hle, fun u hu => hle.trans (h.start_le u hu)⟩⟩

/-! ## Counting queries -/

/-- Once the budget is used up, every query uses up one cool-down of the time that is left. -/
theorem length_asked_mul_le (hcool : 0 < s.cooldown) (hsound : Sound s st)
    (h : st.exhaustedAt = some e) (hseq : Sequential vs) (hend : ∀ v ∈ vs, v.start ≤ b)
    (hfail : ∀ v ∈ asked s st vs, v.failed = true) :
    (asked s st vs).length * s.cooldown ≤ b - e := by
  induction vs generalizing st e with
  | nil => simp [asked]
  | cons v vs ih =>
    have hendTail : ∀ u ∈ vs, u.start ≤ b := fun u hu => hend u (List.mem_cons_of_mem _ hu)
    have hle : s.maxAttempts ≤ st.attempts := hsound.1 (by rw [h]; rfl)
    by_cases hcooling : v.start - e < s.cooldown
    · have hrest : asked s st (v :: vs) = asked s st vs :=
        asked_cons_refused ((gate_exhausted h v.start).trans (if_pos hcooling))
      rw [hrest] at hfail ⊢
      exact ih hsound h hseq.tail hendTail hfail
    · have hgate := (gate_exhausted h v.start).trans (if_neg hcooling)
      rw [asked_cons_passed hgate, List.forall_mem_cons] at hfail
      have hstate := visit_failed hgate hfail.1
      rw [if_pos (hle.trans (Nat.le_succ _))] at hstate
      have hsound' : Sound s (visit s st v).1 := by
        rw [hstate]
        exact iff_of_true rfl (hle.trans (Nat.le_succ _))
      have hrest := ih hsound' (congrArg exhaustedAt hstate) hseq.tail hendTail hfail.2
      have hforward := hseq.forward v List.mem_cons_self
      have hlast := hend v List.mem_cons_self
      rw [asked_cons_passed hgate, List.length_cons, Nat.succ_mul]
      dsimp only [Time] at *
      omega

/-- Before that, every query uses up one attempt of the budget. -/
theorem length_asked_le_of_open (hcool : 0 < s.cooldown) (h : st.exhaustedAt = none)
    (hbudget : st.attempts < s.maxAttempts) (hseq : Sequential vs) {since : Time}
    (hbegin : ∀ v ∈ vs, since ≤ v.start) (hend : ∀ v ∈ vs, v.start ≤ b)
    (hfail : ∀ v ∈ asked s st vs, v.failed = true) :
    (asked s st vs).length ≤ s.maxAttempts - st.attempts + (b - since) / s.cooldown := by
  induction vs generalizing st with
  | nil => simp [asked]
  | cons v vs ih =>
    have hendTail : ∀ u ∈ vs, u.start ≤ b := fun u hu => hend u (List.mem_cons_of_mem _ hu)
    have hgate := gate_open (s := s) h v.start
    rw [asked_cons_passed hgate, List.forall_mem_cons] at hfail
    rw [asked_cons_passed hgate, List.length_cons]
    have hstate := visit_failed hgate hfail.1
    by_cases hlast : s.maxAttempts ≤ st.attempts + 1
    · -- The budget is used up: what is left of the time bounds the rest.
      rw [if_pos hlast] at hstate
      have hsound : Sound s (visit s st v).1 := by
        rw [hstate]
        exact iff_of_true rfl hlast
      have hmul := length_asked_mul_le hcool hsound (congrArg exhaustedAt hstate) hseq.tail
        hendTail hfail.2
      have hsince := (hbegin v List.mem_cons_self).trans (hseq.forward v List.mem_cons_self)
      have hrest := (Nat.le_div_iff_mul_le hcool).2 (hmul.trans (Nat.sub_le_sub_left hsince b))
      omega
    · rw [if_neg hlast] at hstate
      have hrest := @ih (visit s st v).1 (by rw [hstate]; exact h)
        (by rw [hstate]; exact Nat.lt_of_not_le hlast) hseq.tail
        (fun u hu => hbegin u (List.mem_cons_of_mem _ hu)) hendTail hfail.2
      have hattempts : (visit s st v).1.attempts = st.attempts + 1 := by rw [hstate]
      omega

/-- **Queries in an outage.** -/
theorem length_asked_le (hmax : 0 < s.maxAttempts) (hcool : 0 < s.cooldown) (hsound : Sound s st)
    (hseq : Sequential vs) {since : Time} (hbegin : ∀ v ∈ vs, since ≤ v.start)
    (hend : ∀ v ∈ vs, v.start ≤ b) (hfail : ∀ v ∈ asked s st vs, v.failed = true) :
    (asked s st vs).length ≤ s.maxAttempts + (b - since) / s.cooldown := by
  cases h : st.exhaustedAt with
  | none =>
    have hbudget : st.attempts < s.maxAttempts := by
      by_contra hge
      have := hsound.2 (Nat.le_of_not_lt hge)
      rw [h] at this
      cases this
    have hcount := length_asked_le_of_open hcool h hbudget hseq hbegin hend hfail
    omega
  | some e =>
    induction vs with
    | nil => simp [asked]
    | cons v vs ih =>
      have hbeginTail : ∀ u ∈ vs, since ≤ u.start := fun u hu =>
        hbegin u (List.mem_cons_of_mem _ hu)
      have hendTail : ∀ u ∈ vs, u.start ≤ b := fun u hu => hend u (List.mem_cons_of_mem _ hu)
      by_cases hcooling : v.start - e < s.cooldown
      · have hrest : asked s st (v :: vs) = asked s st vs :=
          asked_cons_refused ((gate_exhausted h v.start).trans (if_pos hcooling))
        rw [hrest] at hfail ⊢
        exact ih hseq.tail hbeginTail hendTail hfail
      · have hgate := (gate_exhausted h v.start).trans (if_neg hcooling)
        rw [asked_cons_passed hgate, List.forall_mem_cons] at hfail
        have hle : s.maxAttempts ≤ st.attempts + 1 :=
          (hsound.1 (by rw [h]; rfl)).trans (Nat.le_succ _)
        have hstate := visit_failed hgate hfail.1
        rw [if_pos hle] at hstate
        have hmul := length_asked_mul_le hcool (hsound.visit hmax v)
          (congrArg exhaustedAt hstate) hseq.tail hendTail hfail.2
        have hsince := (hbegin v List.mem_cons_self).trans (hseq.forward v List.mem_cons_self)
        have hrest := (Nat.le_div_iff_mul_le hcool).2 (hmul.trans (Nat.sub_le_sub_left hsince b))
        rw [asked_cons_passed hgate, List.length_cons]
        omega

/-- The queries of a stretch of time are those of the visits that begin in it. -/
theorem length_filter_asked_le (hmax : 0 < s.maxAttempts) (hcool : 0 < s.cooldown)
    (hsound : Sound s st) (hseq : Sequential vs) (since span : Time)
    (hfail : ∀ v ∈ asked s st vs, v.within since span = true → v.failed = true) :
    ((asked s st vs).filter (Visit.within since span)).length ≤
      s.maxAttempts + span / s.cooldown := by
  obtain ⟨before, rest, rfl, hbefore, hrest⟩ := hseq.exists_split since
  obtain ⟨stretch, late, rfl, hstretch, hlate⟩ := hseq.of_append.2.exists_split (since + span + 1)
  rw [asked_append, asked_append] at hfail ⊢
  have hout {st : Selector} {ws : List Visit} (hws : ∀ w ∈ ws, ¬ w.within since span = true) :
      (asked s st ws).filter (Visit.within since span) = [] :=
    List.filter_eq_nil_iff.2 fun w hw => hws w ((asked_sublist st ws).subset hw)
  have hnotBefore : ∀ w ∈ before, ¬ w.within since span = true := by
    intro w hw hin
    exact absurd (of_decide_eq_true hin).1 (Nat.not_le.2 (hbefore w hw))
  have hnotLate : ∀ w ∈ late, ¬ w.within since span = true := by
    intro w hw hin
    exact absurd (of_decide_eq_true hin).2 (Nat.not_le.2 (hlate w hw))
  rw [List.filter_append, List.filter_append, hout hnotBefore, hout hnotLate, List.nil_append,
    List.append_nil]
  have hin : ∀ w ∈ stretch, since ≤ w.start ∧ w.start ≤ since + span := fun w hw =>
    ⟨hrest w (List.mem_append_left _ hw), Nat.le_of_lt_succ (hstretch w hw)⟩
  have hcount := length_asked_le hmax hcool (hsound.after hmax before) hseq.of_append.2.of_append.1
    (fun w hw => (hin w hw).1) (fun w hw => (hin w hw).2) fun w hw => by
      refine hfail w (List.mem_append_right _ (List.mem_append_left _ hw)) ?_
      exact decide_eq_true (hin w ((asked_sublist _ stretch).subset hw))
  rw [Nat.add_sub_cancel_left] at hcount
  exact (List.length_filter_le _ _).trans hcount

/-! ## After the outage -/

/-- Two states that differ in the last endpoint at most. -/
def Alike (st st' : Selector) : Prop :=
  st.attempts = st'.attempts ∧ st.exhaustedAt = st'.exhaustedAt

theorem Alike.gate_eq (h : Alike st st') (now : Time) : gate s st now = gate s st' now := by
  unfold gate
  rw [h.1, h.2]

theorem Alike.visit (h : Alike st st') (v : Visit) :
    (visit s st v).2 = (visit s st' v).2 ∧ Alike (visit s st v).1 (visit s st' v).1 := by
  unfold Selector.visit
  rw [h.gate_eq]
  split
  · exact ⟨rfl, h⟩
  · unfold settle
    split
    · exact ⟨rfl, rfl, rfl⟩
    · dsimp only
      rw [h.1]
      split
      · exact ⟨rfl, rfl, rfl⟩
      · exact ⟨rfl, rfl, h.2⟩

theorem Alike.run (h : Alike st st') (vs : List Visit) :
    results s st vs = results s st' vs ∧ asked s st vs = asked s st' vs ∧
      Alike (Selector.after s st vs) (Selector.after s st' vs) := by
  induction vs generalizing st st' with
  | nil => exact ⟨rfl, rfl, h⟩
  | cons v vs ih =>
    obtain ⟨hresult, hnext⟩ := h.visit (s := s) v
    obtain ⟨hresults, hasked, hafter⟩ := ih hnext
    refine ⟨?_, ?_, hafter⟩
    · rw [results, results, hresult, hresults]
    · rw [asked, asked, h.gate_eq, hasked]

/-- **An outage costs the registry a bounded number of queries.** In any stretch of time in which
every query fails there are no more than `maxAttempts` and one for each cool-down that fits in. A
call during the cool-down is refused without a query and changes nothing; the first one after it
makes a query, and if that succeeds, all later calls go as those on a fresh selector. -/
theorem outage_spec (s : Settings) (hmax : 0 < s.maxAttempts) (hcool : 0 < s.cooldown)
    {st : Selector} (hst : Reachable s st) :
    (∀ vs, Sequential vs → ∀ since span,
      (∀ v ∈ asked s st vs, v.within since span = true → v.failed = true) →
        ((asked s st vs).filter (Visit.within since span)).length ≤
          s.maxAttempts + span / s.cooldown) ∧
    (∀ at' v, st.exhaustedAt = some at' → v.start - at' < s.cooldown →
      visit s st v = (st, .error (.exhausted st.attempts)) ∧ asked s st [v] = [] ∧
        s.maxAttempts ≤ st.attempts) ∧
    ∀ at' early v, st.exhaustedAt = some at' → (∀ u ∈ early, u.start - at' < s.cooldown) →
      s.cooldown ≤ v.start - at' →
        asked s st (early ++ [v]) = [v] ∧
          ∀ url, v.answer = .ok url → ∀ later,
            let back := after s st (early ++ [v])
            results s back later = results s fresh later ∧
              asked s back later = asked s fresh later ∧
              Alike (after s back later) (after s fresh later) := by
  have hsound := hst.sound hmax
  refine ⟨fun vs hseq since span => length_filter_asked_le hmax hcool hsound hseq since span,
    fun at' v h hv => ⟨visit_refused h hv, ?_, hsound.1 (by rw [h]; rfl)⟩,
    fun at' early v h hearly hv => ?_⟩
  · exact asked_cons_refused ((gate_exhausted h v.start).trans (if_pos hv))
  · obtain ⟨hstay, hnone⟩ := after_cooling h hearly
    have hgate : gate s st v.start = .ok () :=
      (gate_exhausted h v.start).trans (if_neg (Nat.not_lt.2 hv))
    refine ⟨?_, fun url hurl later => ?_⟩
    · rw [asked_append, hnone, hstay, asked_cons_passed hgate]
      rfl
    · have hback : after s st (early ++ [v]) = ⟨some url, 0, none⟩ := by
        rw [after_append, hstay, after, List.foldl_cons, visit_succeeded hgate hurl]
        rfl
      intro back
      have halike : Alike back fresh := by
        show Alike (after s st (early ++ [v])) fresh
        rw [hback]
        exact ⟨rfl, rfl⟩
      exact halike.run later

/-- Two attempts fail, then one query for each cool-down does, until the registry is back. -/
def flicker : List Visit :=
  [⟨0, 1, .error (.registry "down")⟩, ⟨2, 3, .error (.registry "down")⟩,
    ⟨9, 9, .ok "unheard"⟩, ⟨13, 14, .error (.registry "down")⟩, ⟨24, 25, .ok "endpoint"⟩]

theorem outage_spec_flicker :
    Reachable ⟨"default", 2, 10⟩ fresh ∧ Sequential flicker ∧
      ((asked ⟨"default", 2, 10⟩ fresh flicker).filter (Visit.within 0 20)).length = 3 ∧
        (asked ⟨"default", 2, 10⟩ fresh flicker).length = 4 ∧ 3 ≤ 2 + 20 / 10 := by
  have hfresh : Reachable ⟨"default", 2, 10⟩ fresh := ⟨0, _, .zero _, rfl⟩
  have hseq : Sequential flicker := ⟨by decide, by decide⟩
  have hcount := (outage_spec ⟨"default", 2, 10⟩ (by decide) (by decide) hfresh).1 flicker hseq 0 20
    (by decide)
  exact ⟨hfresh, hseq, by decide, by decide, hcount⟩

end Quorum.Selector
