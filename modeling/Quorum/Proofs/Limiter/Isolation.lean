import Mathlib
import Quorum.Proofs.Limiter.Check

/-!
# Clients do not notice each other

What a client is answered depends on its own checks alone (`results_own`). The limiter of a run
and that of the client's own checks need not hold the same entry for it: a cleanup may have
taken one away that has ended. `Alike` allows for no other difference, and a check cannot tell
such entries apart (`Alike.check`): it opens a new window in both cases.
-/

namespace Quorum.Limiter

/-- The result of the call, if it is a check of the client. -/
def result? (c : IpAddress) (x : (Time × Call) × Option (Except Refusal Unit)) :
    Option (Except Refusal Unit) :=
  if x.1.2 = .check c then x.2 else none

/-- What the checks of a client come to in a run. -/
def results (s : Settings) (calls : List (Time × Call)) (c : IpAddress) :
    List (Except Refusal Unit) :=
  (calls.zip (answers s empty calls)).filterMap (result? c)

/-- The checks of a client, at the moments at which they are made. -/
def own (c : IpAddress) (calls : List (Time × Call)) : List (Time × Call) :=
  calls.filter fun x => x.2 = .check c

/-- Two entries that a check at `now` or later does not tell apart: the first one may have been
forgotten, if it had ended. -/
inductive Alike (s : Settings) (now : Time) : Option Window → Option Window → Prop where
  | same (found : Option Window) : Alike s now found found
  | forgotten {w : Window} (h : s.window ≤ now - w.start) : Alike s now none (some w)

variable {s : Settings} {l l' : Limiter} {c d : IpAddress} {now later : Time}
  {found found' : Option Window}

/-! ## Entries -/

theorem Alike.mono (h : Alike s now found found') (hle : now ≤ later) :
    Alike s later found found' := by
  cases h with
  | same => exact .same _
  | forgotten h => exact .forgotten (h.trans (Nat.sub_le_sub_right hle _))

/-- Forgetting the first entry if it has ended. -/
theorem Alike.cleanup (h : Alike s now found found') :
    Alike s now (found.filter fun w => decide (now - w.start < s.window)) found' := by
  cases h with
  | forgotten h => exact .forgotten h
  | same found =>
    cases found with
    | none => exact .same _
    | some w =>
      by_cases hopen : now - w.start < s.window
      · simpa [Option.filter, hopen] using Alike.same (some w)
      · simpa [Option.filter, hopen] using Alike.forgotten (Nat.le_of_not_lt hopen)

/-- A check falls into the same window in both cases. -/
theorem Alike.current_eq (h : Alike s now (l.find? c) (l'.find? c)) :
    current s l c now = current s l' c now := by
  generalize hfound : l.find? c = found at h
  generalize hfound' : l'.find? c = found' at h
  unfold current
  rw [hfound, hfound']
  cases h with
  | same => rfl
  | forgotten h => exact (if_neg (Nat.not_lt.2 h)).symm

theorem Alike.result_eq (hmax : 0 < s.maxRequests) (h : Alike s now (l.find? c) (l'.find? c)) :
    (check s l c now).2 = (check s l' c now).2 := by
  have hcurrent := h.current_eq
  rw [check_eq, check_eq, ← hcurrent]
  generalize hfound : l.find? c = found at h
  generalize hfound' : l'.find? c = found' at h
  cases h with
  | same => dsimp only; split <;> rfl
  | forgotten h =>
    -- The window has just been opened, so the request is not refused.
    have hfresh : (current s l c now).count = 0 := by
      unfold current
      rw [hfound]
    have hroom : ¬ s.maxRequests ≤ (current s l c now).count := by
      rw [hfresh]
      exact Nat.not_le.2 hmax
    dsimp only
    rw [if_neg hroom, if_neg hroom]

/-- **A check cannot tell such entries apart**, and leaves the same entry behind. -/
theorem Alike.check (hmax : 0 < s.maxRequests) (h : Alike s now (l.find? c) (l'.find? c)) :
    (check s l c now).2 = (check s l' c now).2 ∧
      (check s l c now).1.find? c = (check s l' c now).1.find? c := by
  have hresult := h.result_eq hmax
  refine ⟨hresult, ?_⟩
  by_cases hok : (Limiter.check s l c now).2 = .ok ()
  · rw [find?_check_of_ok hok, find?_check_of_ok (hresult ▸ hok), h.current_eq]
  · rw [find?_check_of_ne_ok hok, find?_check_of_ne_ok (hresult ▸ hok), h.current_eq]

/-! ## Runs -/

theorem results_append_singleton (calls : List (Time × Call)) (x : Time × Call) (c : IpAddress) :
    results s (calls ++ [x]) c = results s calls c ++
      (result? c (x, (call s (run s empty calls) x.1 x.2).1)).toList := by
  rw [results, zip_answers_append_singleton, List.filterMap_append]
  rfl

theorem own_append_singleton (c : IpAddress) (calls : List (Time × Call)) (x : Time × Call) :
    own c (calls ++ [x]) = own c calls ++ if x.2 = .check c then [x] else [] := by
  unfold own
  rw [List.filter_append]
  split <;> simp_all

/-- The entries of a client in a run and in the run of its own checks. -/
theorem alike_own (hmax : 0 < s.maxRequests) {calls : List (Time × Call)} (horder : InOrder calls)
    (hpast : ∀ x ∈ calls, x.1 ≤ now) (c : IpAddress) :
    Alike s now ((run s empty calls).find? c) ((run s empty (own c calls)).find? c) ∧
      results s calls c = results s (own c calls) c := by
  induction calls using List.reverseRecOn generalizing now with
  | nil => exact ⟨.same _, rfl⟩
  | append_singleton calls x ih =>
    obtain ⟨t, call⟩ := x
    obtain ⟨hcalls, -, hlast⟩ := List.pairwise_append.1 horder
    obtain ⟨halike, hresults⟩ := @ih t hcalls fun x hx => hlast x hx (t, call) List.mem_cons_self
    have hle : t ≤ now := hpast (t, call) (by simp)
    rw [run_append_singleton, results_append_singleton, own_append_singleton]
    dsimp only
    cases call with
    | cleanup =>
      rw [if_neg nofun, List.append_nil, Limiter.call, find?_cleanup (keys_run_nodup hmax calls)]
      refine ⟨halike.cleanup.mono hle, ?_⟩
      rw [← hresults]
      exact List.append_nil _
    | check d =>
      by_cases hd : d = c
      · subst hd
        obtain ⟨hresult, hfound⟩ := halike.check hmax
        rw [if_pos rfl, run_append_singleton, results_append_singleton, hresults]
        dsimp only [Limiter.call]
        rw [hresult, hfound]
        exact ⟨.same _, rfl⟩
      · have hne : Call.check d ≠ .check c := fun heq => hd (Call.check.inj heq)
        rw [if_neg hne, List.append_nil]
        dsimp only [Limiter.call]
        rw [find?_check_of_ne fun heq => hd heq.symm, ← hresults, result?, if_neg hne]
        exact ⟨halike.mono hle, List.append_nil _⟩

/-- **A client is answered as if it were alone and nothing were ever forgotten.** -/
theorem results_own (s : Settings) (hmax : 0 < s.maxRequests) (calls : List (Time × Call))
    (horder : InOrder calls) (c : IpAddress) :
    results s calls c = results s (own c calls) c := by
  obtain ⟨now, hnow⟩ : ∃ now, ∀ x ∈ calls, x.1 ≤ now :=
    ⟨(calls.map Prod.fst).foldr max 0, fun x hx => List.le_max_of_le (List.mem_map_of_mem hx) le_rfl⟩
  exact (alike_own hmax horder hnow c).2

def caller : IpAddress := .v4 [192, 0, 2, 7]

/-- The caller's window is forgotten at the moment it ends, and opened anew. -/
def forgetful : List (Time × Call) :=
  [(0, .check caller), (1, .check (.v4 [192, 0, 2, 8])), (4, .check caller), (10, .cleanup),
    (10, .check caller), (12, .check (.v4 [192, 0, 2, 8])), (12, .check caller)]

theorem results_own_forgetful :
    InOrder forgetful ∧ own caller forgetful =
        [(0, .check caller), (4, .check caller), (10, .check caller), (12, .check caller)] ∧
      results ⟨1, 10⟩ forgetful caller =
        [.ok (), .error ⟨1, 10, 6⟩, .ok (), .error ⟨1, 10, 8⟩] ∧
      results ⟨1, 10⟩ (own caller forgetful) caller =
        [.ok (), .error ⟨1, 10, 6⟩, .ok (), .error ⟨1, 10, 8⟩] := by
  have horder : InOrder forgetful := by unfold InOrder; decide
  have hresults : results ⟨1, 10⟩ forgetful caller =
      [.ok (), .error ⟨1, 10, 6⟩, .ok (), .error ⟨1, 10, 8⟩] := by rfl
  have hown := results_own ⟨1, 10⟩ (by decide) forgetful horder caller
  exact ⟨horder, by decide, hresults, hown.symm.trans hresults⟩

end Quorum.Limiter
