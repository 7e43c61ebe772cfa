import Mathlib
import Quorum.Selector

/-!
# Overlapping calls of the selector

A call looks at the state, waits for the registry and takes the answer into the state; other
calls may do any of this in between (`Step`). What the calls come to depends on the order of the
last of these steps alone: the state is determined by the updates so far (`stateAfter`), and the
result of a call that made a query by its own answer and the failures in a row before it
(`outcome`). `Inv` says so and holds along every run (`StepsN.inv`); with it at most
`maxAttempts - 1` calls in a row of failures fall back to the default endpoint (`fallbacks_le`).
-/

namespace Quorum.Selector

/-! ## Updates -/

/-- A registry answer taken into the state. -/
structure Update where
  call : Nat
  time : Time
  answer : Answer

def Update.failed (u : Update) : Bool :=
  match u.answer with
  | .ok _ => false
  | .error _ => true

def Update.endpoint? (u : Update) : Option String :=
  match u.answer with
  | .ok url => some url
  | .error _ => none

/-- Failures in a row; all lists of updates are latest first. -/
def streak (us : List Update) : Nat := (us.takeWhile Update.failed).length

def lastEndpoint (us : List Update) : Option String := us.findSome? Update.endpoint?

def lastFailure (us : List Update) : Option Time := (us.find? Update.failed).map Update.time

/-- The state that some updates lead to. -/
def stateAfter (s : Settings) (us : List Update) : Selector :=
  ⟨lastEndpoint us, streak us, if s.maxAttempts ≤ streak us then lastFailure us else none⟩

/-- The result of the call that made an update after some earlier ones. -/
def outcome (s : Settings) (u : Update) (earlier : List Update) : Answer :=
  match u.answer with
  | .ok url => .ok url
  | .error _ =>
    if streak (u :: earlier) < s.maxAttempts then .ok s.defaultUrl
    else .error (.exhausted (streak (u :: earlier)))

/-! ## Runs -/

/-- Where a call stands. -/
inductive Phase where
  | idle
  | querying
  | answered (a : Answer)
  | ended

/-- The calls at work. -/
structure System where
  /-- What the calls have done to the state. -/
  events : List Event
  phase : Nat → Phase

def System.start : System := ⟨[], fun _ => .idle⟩

def System.trace (s : Settings) (y : System) : Trace := run s ⟨fresh, []⟩ y.events

def update? : Event → Option Update
  | .start _ _ => none
  | .finish call now answer => some ⟨call, now, answer⟩

/-- The updates so far, latest first. -/
def System.updates (y : System) : List Update := (y.events.filterMap update?).reverse

inductive Step (s : Settings) : System → System → Prop where
  | pass {y : System} {call : Nat} (now : Time) (h : y.phase call = .idle)
      (hg : gate s (y.trace s).state now = .ok ()) :
      Step s y ⟨y.events ++ [.start call now], Function.update y.phase call .querying⟩
  | refuse {y : System} {call : Nat} {e : EndpointError} (now : Time) (h : y.phase call = .idle)
      (hg : gate s (y.trace s).state now = .error e) :
      Step s y ⟨y.events ++ [.start call now], Function.update y.phase call .ended⟩
  | answer {y : System} {call : Nat} (a : Answer) (h : y.phase call = .querying) :
      Step s y ⟨y.events, Function.update y.phase call (.answered a)⟩
  | update {y : System} {call : Nat} {a : Answer} (now : Time) (h : y.phase call = .answered a) :
      Step s y ⟨y.events ++ [.finish call now a], Function.update y.phase call .ended⟩

inductive StepsN (s : Settings) : Nat → System → System → Prop where
  | zero (y : System) : StepsN s 0 y y
  | succ {n : Nat} {y y' y'' : System} : StepsN s n y y' → Step s y' y'' → StepsN s (n + 1) y y''

/-- What holds of every state of the calls. -/
structure Inv (s : Settings) (y : System) : Prop where
  state : (y.trace s).state = stateAfter s y.updates
  /-- Only calls that have ended have results. -/
  silent : ∀ call r, (call, r) ∈ (y.trace s).results → y.phase call = .ended
  ended : ∀ u ∈ y.updates, y.phase u.call = .ended
  results : ∀ later u earlier, y.updates = later ++ u :: earlier →
    ∀ r, (u.call, r) ∈ (y.trace s).results ↔ r = outcome s u earlier
  /-- A call that ended without an update was refused. -/
  refused : ∀ call r, (call, r) ∈ (y.trace s).results →
    (∃ u ∈ y.updates, u.call = call) ∨ ∃ k, s.maxAttempts ≤ k ∧ r = .error (.exhausted k)

variable {s : Settings} {y y' : System}

theorem trace_append (es : List Event) (e : Event) (phase phase' : Nat → Phase) :
    System.trace s ⟨es ++ [e], phase⟩ = step s (System.trace s ⟨es, phase'⟩) e := by
  simp [System.trace, run, List.foldl_append]

theorem updates_start (es : List Event) (call : Nat) (now : Time) (phase phase' : Nat → Phase) :
    System.updates ⟨es ++ [.start call now], phase⟩ = System.updates ⟨es, phase'⟩ := by
  simp [System.updates, update?]

theorem updates_finish (es : List Event) (call : Nat) (now : Time) (a : Answer)
    (phase phase' : Nat → Phase) : System.updates ⟨es ++ [.finish call now a], phase⟩ =
      ⟨call, now, a⟩ :: System.updates ⟨es, phase'⟩ := by
  simp [System.updates, update?]

/-! ## One update -/

theorem streak_cons (u : Update) (us : List Update) :
    streak (u :: us) = if u.failed then streak us + 1 else 0 := by
  unfold streak
  rw [List.takeWhile_cons]
  split <;> simp

/-- Taking an answer into the state that some updates led to adds one update. -/
theorem settle_stateAfter (hmax : 0 < s.maxAttempts) (u : Update) (us : List Update) :
    settle s (stateAfter s us) u.time u.answer = (stateAfter s (u :: us), outcome s u us) := by
  obtain ⟨call, now, a⟩ := u
  cases a with
  | ok url =>
    have hstreak : streak (⟨call, now, .ok url⟩ :: us) = 0 := streak_cons _ _
    have hlast : lastEndpoint (⟨call, now, .ok url⟩ :: us) = some url := rfl
    simp only [settle, stateAfter, outcome, hstreak, hlast, Nat.not_le.2 hmax, if_false]
  | error e =>
    have hstreak : streak (⟨call, now, .error e⟩ :: us) = streak us + 1 := streak_cons _ _
    have hlast : lastEndpoint (⟨call, now, .error e⟩ :: us) = lastEndpoint us := rfl
    have hfail : lastFailure (⟨call, now, .error e⟩ :: us) = some now := rfl
    by_cases hle : s.maxAttempts ≤ streak us + 1
    · simp only [settle, stateAfter, outcome, hstreak, hlast, hfail, hle, if_true,
        Nat.not_lt.2 hle, if_false]
    · have hlt : ¬ s.maxAttempts ≤ streak us := by omega
      simp only [settle, stateAfter, outcome, hstreak, hlast, hle, hlt, if_false,
        Nat.lt_of_not_le hle, if_true]

/-! ## The invariant -/

theorem inv_start : Inv s System.start where
  state := by
    simp [System.trace, System.start, run, System.updates, stateAfter, fresh, lastEndpoint,
      streak, lastFailure]
  silent := by simp [System.trace, System.start, run]
  ended := by simp [System.updates, System.start]
  results := by simp [System.updates, System.start]
  refused := by simp [System.trace, System.start, run]

/-- A step that updates nothing may still end a call, by refusing it. -/
theorem Inv.frame (h : Inv s y) (hstate : (y'.trace s).state = (y.trace s).state)
    (hupdates : y'.updates = y.updates)
    (hphase : ∀ call, y.phase call = .ended → y'.phase call = .ended)
    (hkeep : ∀ x ∈ (y.trace s).results, x ∈ (y'.trace s).results)
    (hnew : ∀ call r, (call, r) ∈ (y'.trace s).results →
      (call, r) ∈ (y.trace s).results ∨ (y.phase call ≠ .ended ∧ y'.phase call = .ended) ∧
        ∃ k, s.maxAttempts ≤ k ∧ r = .error (.exhausted k)) :
    Inv s y' where
  state := by rw [hstate, hupdates, h.state]
  silent := by
    intro call r hr
    rcases hnew call r hr with hr | ⟨⟨-, hended⟩, -⟩
    · exact hphase call (h.silent call r hr)
    · exact hended
  ended := by
    intro u hu
    rw [hupdates] at hu
    exact hphase _ (h.ended u hu)
  results := by
    intro later u earlier hsplit r
    rw [hupdates] at hsplit
    have hended := h.ended u (hsplit ▸ List.mem_append_right _ List.mem_cons_self)
    rw [← h.results later u earlier hsplit r]
    refine ⟨fun hr => ?_, hkeep _⟩
    rcases hnew u.call r hr with hr | ⟨⟨hne, -⟩, -⟩
    · exact hr
    · exact absurd hended hne
  refused := by
    intro call r hr
    rw [hupdates]
    rcases hnew call r hr with hr | ⟨-, hk⟩
    · exact h.refused call r hr
    · exact .inr hk

/-- A call that has not ended moves on; those that have stay. -/
theorem ended_of_move {call : Nat} {p : Phase} (h : y.phase call ≠ .ended) {c : Nat}
    (hc : y.phase c = .ended) : Function.update y.phase call p c = .ended := by
  have hne : c ≠ call := by
    rintro rfl
    exact h hc
  exact (Function.update_of_ne hne _ _).trans hc

theorem inv_pass {call : Nat} {now : Time} (h : Inv s y) (hidle : y.phase call = .idle)
    (hg : gate s (y.trace s).state now = .ok ()) :
    Inv s ⟨y.events ++ [.start call now], Function.update y.phase call .querying⟩ := by
  have htrace := trace_append (s := s) y.events (.start call now)
    (Function.update y.phase call .querying) y.phase
  have hstep : step s (y.trace s) (.start call now) = y.trace s := by simp only [step, hg]
  change _ = step s (y.trace s) _ at htrace
  rw [hstep] at htrace
  refine h.frame (by rw [htrace]) (updates_start ..) (fun c hc => ?_) (by simp [htrace])
    (fun c r hr => .inl (by rwa [htrace] at hr))
  exact ended_of_move (by rw [hidle]; nofun) hc

/-- The gate refuses only after failures that used up the budget. -/
theorem gate_eq_error {now : Time} {e : EndpointError} (h : Inv s y)
    (hg : gate s (y.trace s).state now = .error e) :
    ∃ k, s.maxAttempts ≤ k ∧ e = .exhausted k := by
  rw [h.state] at hg
  refine ⟨streak y.updates, ?_⟩
  unfold gate at hg
  split at hg
  · cases hg
  · rename_i t hexhausted
    split at hg
    · cases hg
      refine ⟨?_, rfl⟩
      by_contra hle
      simp only [stateAfter, hle, if_false] at hexhausted
      cases hexhausted
    · cases hg

theorem inv_refuse {call : Nat} {now : Time} {e : EndpointError} (h : Inv s y)
    (hidle : y.phase call = .idle) (hg : gate s (y.trace s).state now = .error e) :
    Inv s ⟨y.events ++ [.start call now], Function.update y.phase call .ended⟩ := by
  have htrace := trace_append (s := s) y.events (.start call now)
    (Function.update y.phase call .ended) y.phase
  have hstep : step s (y.trace s) (.start call now) =
      ⟨(y.trace s).state, (call, .error e) :: (y.trace s).results⟩ := by simp only [step, hg]
  change _ = step s (y.trace s) _ at htrace
  rw [hstep] at htrace
  have hne : y.phase call ≠ .ended := by rw [hidle]; nofun
  refine h.frame (by rw [htrace]) (updates_start ..) (fun c hc => ended_of_move hne hc)
    (fun x hx => by rw [htrace]; exact List.mem_cons_of_mem _ hx) (fun c r hr => ?_)
  rw [htrace] at hr
  rcases List.mem_cons.1 hr with heq | hr
  · cases heq
    obtain ⟨k, hk, rfl⟩ := gate_eq_error h hg
    exact .inr ⟨⟨hne, Function.update_self ..⟩, k, hk, rfl⟩
  · exact .inl hr

theorem inv_answer {call : Nat} {a : Answer} (h : Inv s y) (hq : y.phase call = .querying) :
    Inv s ⟨y.events, Function.update y.phase call (.answered a)⟩ :=
  h.frame rfl rfl (fun _ hc => ended_of_move (by rw [hq]; nofun) hc) (fun _ hx => hx)
    fun _ _ hr => .inl hr

theorem inv_update (hmax : 0 < s.maxAttempts) {call : Nat} {now : Time} {a : Answer}
    (h : Inv s y) (ha : y.phase call = .answered a) :
    Inv s ⟨y.events ++ [.finish call now a], Function.update y.phase call .ended⟩ := by
  have htrace := trace_append (s := s) y.events (.finish call now a)
    (Function.update y.phase call .ended) y.phase
  have hupdates := updates_finish y.events call now a (Function.update y.phase call .ended) y.phase
  change _ = step s (y.trace s) _ at htrace
  change _ = _ :: y.updates at hupdates
  have hstep : step s (y.trace s) (.finish call now a) =
      ⟨stateAfter s (⟨call, now, a⟩ :: y.updates),
        (call, outcome s ⟨call, now, a⟩ y.updates) :: (y.trace s).results⟩ := by
    have hsettle := settle_stateAfter hmax ⟨call, now, a⟩ y.updates
    rw [← h.state] at hsettle
    simp only [step, hsettle]
  rw [hstep] at htrace
  have hne : y.phase call ≠ .ended := by rw [ha]; nofun
  refine ⟨by rw [htrace, hupdates], fun c r hr => ?_, fun u hu => ?_,
    fun later u earlier hsplit r => ?_, fun c r hr => ?_⟩
  · rw [htrace] at hr
    rcases List.mem_cons.1 hr with heq | hr
    · cases heq
      exact Function.update_self ..
    · exact ended_of_move hne (h.silent c r hr)
  · rw [hupdates] at hu
    rcases List.mem_cons.1 hu with rfl | hu
    · exact Function.update_self ..
    · exact ended_of_move hne (h.ended u hu)
  · rw [hupdates] at hsplit
    rw [htrace, List.mem_cons, Prod.mk.injEq]
    cases later with
    | nil =>
      -- The new update: its call had no result before.
      obtain ⟨rfl, rfl⟩ := List.cons.inj hsplit
      constructor
      · rintro (⟨-, hr⟩ | hr)
        · exact hr
        · exact absurd (h.silent _ _ hr) hne
      · exact fun hr => .inl ⟨rfl, hr⟩
    | cons u' later =>
      obtain ⟨-, hsplit⟩ := List.cons.inj hsplit
      rw [← h.results later u earlier hsplit r]
      have hended := h.ended u (hsplit ▸ List.mem_append_right _ List.mem_cons_self)
      constructor
      · rintro (⟨rfl, -⟩ | hr)
        · exact absurd hended hne
        · exact hr
      · exact .inr
  · rw [htrace] at hr
    rw [hupdates]
    rcases List.mem_cons.1 hr with heq | hr
    · cases heq
      exact .inl ⟨_, List.mem_cons_self, rfl⟩
    · rcases h.refused c r hr with ⟨u, hu, hc⟩ | hk
      · exact .inl ⟨u, List.mem_cons_of_mem _ hu, hc⟩
      · exact .inr hk

theorem Step.inv (hmax : 0 < s.maxAttempts) (hs : Step s y y') (h : Inv s y) : Inv s y' := by
  cases hs with
  | pass now hidle hg => exact inv_pass h hidle hg
  | refuse now hidle hg => exact inv_refuse h hidle hg
  | answer a hq => exact inv_answer h hq
  | update now ha => exact inv_update hmax h ha

/-- **The invariant holds along every run.** -/
theorem StepsN.inv (hmax : 0 < s.maxAttempts) {n : Nat} (hs : StepsN s n System.start y) :
    Inv s y := by
  generalize hstart : System.start = y₀ at hs
  induction hs with
  | zero => exact hstart ▸ inv_start
  | succ _ hstep ih => exact hstep.inv hmax (ih hstart)

/-! ## Fallbacks -/

/-- Whether a call was handed the default endpoint. -/
def System.fellBack (s : Settings) (y : System) (call : Nat) : Bool :=
  decide ((call, .ok s.defaultUrl) ∈ (y.trace s).results)

theorem streak_append {us earlier : List Update} (h : ∀ u ∈ us, u.failed = true) :
    streak (us ++ earlier) = us.length + streak earlier := by
  induction us with
  | nil => exact (Nat.zero_add _).symm
  | cons u us ih =>
    rw [List.cons_append, streak_cons, if_pos (h u List.mem_cons_self),
      ih fun u' hu' => h u' (List.mem_cons_of_mem _ hu'), List.length_cons]
    omega

/-- A failure that falls back is within the budget. -/
theorem streak_lt_of_fellBack (h : Inv s y) {later earlier : List Update} {u : Update}
    (hsplit : y.updates = later ++ u :: earlier) (hu : u.failed = true)
    (hback : y.fellBack s u.call = true) : streak (u :: earlier) < s.maxAttempts := by
  have hres := (h.results later u earlier hsplit _).1 (of_decide_eq_true hback)
  obtain ⟨call, now, a⟩ := u
  cases a with
  | ok url => cases hu
  | error e =>
    by_contra hge
    simp only [outcome, hge, if_false] at hres
    cases hres

/-- Of failures in a row only those within the budget fall back. -/
theorem fallbacks_le (h : Inv s y) {later failures earlier : List Update}
    (hsplit : y.updates = later ++ (failures ++ earlier))
    (hf : ∀ u ∈ failures, u.failed = true) :
    failures.countP (fun u => y.fellBack s u.call) ≤ s.maxAttempts - 1 := by
  induction failures generalizing later with
  | nil => exact Nat.zero_le _
  | cons u failures ih =>
    have hrest := @ih (later ++ [u]) (by simp [hsplit]) fun u' hu' =>
      hf u' (List.mem_cons_of_mem _ hu')
    rw [List.countP_cons]
    split
    · rename_i hback
      have hlt : streak (u :: (failures ++ earlier)) < s.maxAttempts :=
        streak_lt_of_fellBack h hsplit (hf u List.mem_cons_self) hback
      have hstreak : streak (u :: (failures ++ earlier)) = failures.length + 1 + streak earlier :=
        streak_append hf
      have hcount : failures.countP (fun u => y.fellBack s u.call) ≤ failures.length :=
        List.countP_le_length
      omega
    · exact hrest

/-! ## Calls -/

theorem lastFailure_isSome {us : List Update} (h : 0 < streak us) : (lastFailure us).isSome := by
  cases us with
  | nil => cases h
  | cons u us =>
    rw [streak_cons] at h
    split at h
    · rename_i hu
      simp [lastFailure, hu]
    · cases h

/-- **Overlapping calls come to what their updates say, in the order of these.** The state is
that of the updates so far, each call that made one has the result that its own answer and the
failures in a row up to it determine, any other call that has ended was refused, and of failures
in a row fewer than `maxAttempts` fall back to the default endpoint. -/
theorem calls_spec (s : Settings) (hmax : 0 < s.maxAttempts) {n : Nat} {y : System}
    (hs : StepsN s n System.start y) :
    ((y.trace s).state.attempts = streak y.updates ∧
      (y.trace s).state.current = lastEndpoint y.updates ∧
      ((y.trace s).state.exhaustedAt.isSome ↔ s.maxAttempts ≤ streak y.updates) ∧
      (s.maxAttempts ≤ streak y.updates →
        (y.trace s).state.exhaustedAt = lastFailure y.updates)) ∧
    (∀ later u earlier, y.updates = later ++ u :: earlier →
      ∀ r, (u.call, r) ∈ (y.trace s).results ↔ r = outcome s u earlier) ∧
    (∀ call r, (call, r) ∈ (y.trace s).results →
      (∃ u ∈ y.updates, u.call = call) ∨ ∃ k, s.maxAttempts ≤ k ∧ r = .error (.exhausted k)) ∧
    ∀ later failures earlier, y.updates = later ++ (failures ++ earlier) →
      (∀ u ∈ failures, u.failed = true) →
        failures.countP (fun u => y.fellBack s u.call) ≤ s.maxAttempts - 1 := by
  have h := hs.inv hmax
  refine ⟨?_, h.results, h.refused, fun _ _ _ hsplit hf => fallbacks_le h hsplit hf⟩
  rw [h.state]
  refine ⟨rfl, rfl, ?_, fun hle => if_pos hle⟩
  by_cases hle : s.maxAttempts ≤ streak y.updates
  · simp only [stateAfter, hle, if_true, iff_true]
    exact lastFailure_isSome (hmax.trans_le hle)
  · simp [stateAfter, hle]

/-- Two calls overlap: the one that fails updates the state after the one that succeeds. -/
theorem calls_spec_overlap :
    ∃ y, StepsN ⟨"default", 1, 10⟩ 6 System.start y ∧
      y.updates = [⟨0, 5, .error (.registry "down")⟩, ⟨1, 4, .ok "endpoint"⟩] ∧
        (y.trace ⟨"default", 1, 10⟩).state.attempts = 1 ∧
          ∀ r, (0, r) ∈ (y.trace ⟨"default", 1, 10⟩).results ↔ r = .error (.exhausted 1) := by
  have hrun : StepsN ⟨"default", 1, 10⟩ 6 System.start _ :=
    .succ (.succ (.succ (.succ (.succ (.succ (.zero _)
      (@Step.pass _ _ 0 1 rfl rfl)) (@Step.pass _ _ 1 2 rfl rfl))
      (@Step.answer _ _ 0 (.error (.registry "down")) rfl)) (@Step.answer _ _ 1 (.ok "endpoint") rfl))
      (@Step.update _ _ 1 _ 4 rfl)) (@Step.update _ _ 0 _ 5 rfl)
  have hspec := calls_spec ⟨"default", 1, 10⟩ (by decide) hrun
  exact ⟨_, hrun, rfl, hspec.1.1, hspec.2.1 [] _ _ rfl⟩

end Quorum.Selector
