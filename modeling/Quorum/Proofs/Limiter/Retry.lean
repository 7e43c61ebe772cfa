import Mathlib
import Quorum.Proofs.Limiter.Isolation

/-!
# When to come back

A refusal says how long the client's window still lasts, so with its own moment it names the end
of the window. Up to there nothing but the client's own checks counts for its entry, and cleanups
leave it alone (`alike_after`): every further check is refused and names the same end, and the
first one that is not before it opens a window of its own (`retry_spec`).
-/

namespace Quorum.Limiter

/-- Calls one after the other, none before `start` and none after `stop`. -/
structure Meanwhile (start stop : Time) (calls : List (Time × Call)) : Prop where
  order : InOrder calls
  within : ∀ x ∈ calls, start ≤ x.1 ∧ x.1 ≤ stop
  le : start ≤ stop

/-- The window after `n` more checks of the client before its end. -/
def Window.after (s : Settings) (w : Window) (n : Nat) : Window :=
  ⟨min s.maxRequests (w.count + n), w.start⟩

/-- What a check before the end of the window is answered. -/
def Window.answer (s : Settings) (w : Window) (now : Time) : Except Refusal Unit :=
  if w.count < s.maxRequests then .ok ()
  else .error ⟨s.maxRequests, s.window, w.start + s.window - now⟩

variable {s : Settings} {l : Limiter} {before calls : List (Time × Call)} {c : IpAddress}
  {now later : Time} {w : Window} {r : Refusal}

/-! ## One check -/

theorem Window.after_zero (hcount : w.count ≤ s.maxRequests) : w.after s 0 = w := by
  rw [Window.after, Nat.add_zero, Nat.min_eq_right hcount]

theorem Window.after_after (s : Settings) (w : Window) (n : Nat) :
    (w.after s n).after s 1 = w.after s (n + 1) := by
  have hmin : min s.maxRequests (min s.maxRequests (w.count + n) + 1) =
      min s.maxRequests (w.count + (n + 1)) := by omega
  rw [Window.after, Window.after, Window.after, hmin]

theorem Window.answer_after (s : Settings) (w : Window) (n : Nat) (now : Time) :
    (w.after s n).answer s now = if w.count + n < s.maxRequests then .ok ()
      else .error ⟨s.maxRequests, s.window, w.start + s.window - now⟩ := by
  have hroom : min s.maxRequests (w.count + n) < s.maxRequests ↔
      w.count + n < s.maxRequests := by omega
  unfold Window.answer Window.after
  simp only [hroom]

theorem Window.count_after_le (s : Settings) (w : Window) (n : Nat) :
    (w.after s n).count ≤ s.maxRequests := Nat.min_le_left _ _

/-- An entry that may have been forgotten once it ended is there before that. -/
theorem Alike.eq_of_lt {found : Option Window} (h : Alike s now found (some w))
    (hstart : w.start ≤ now) (hopen : now < w.start + s.window) : found = some w := by
  cases h with
  | same => rfl
  | forgotten hended =>
    dsimp only [Time] at *
    omega

/-- A check before the end of the client's window. -/
theorem check_of_lt (hmax : 0 < s.maxRequests) (hw : l.find? c = some w)
    (hcount : w.count ≤ s.maxRequests) (hstart : w.start ≤ now)
    (hopen : now < w.start + s.window) :
    (check s l c now).2 = w.answer s now ∧
      (check s l c now).1.find? c = some (w.after s 1) := by
  have hcases := check_cases hmax l c now
  generalize check s l c now = result at hcases
  cases hcases with
  | refused hw' _ hfull =>
    cases hw.symm.trans hw'
    have hleft : s.window - (now - w.start) = w.start + s.window - now := by
      dsimp only [Time] at *
      omega
    have hsame : w.after s 1 = w := by
      rw [Window.after, Nat.min_eq_left (hfull.trans (Nat.le_succ _)), hfull.antisymm hcount]
    rw [Window.answer, if_neg (Nat.not_lt.2 hfull), hleft, hsame]
    exact ⟨rfl, hw⟩
  | joined hw' _ hroom =>
    cases hw.symm.trans hw'
    rw [Window.answer, if_pos hroom, Window.after, Nat.min_eq_right hroom]
    exact ⟨rfl, lookup_put_self ..⟩
  | opened hended =>
    have := hended w hw
    dsimp only [Time] at *
    omega

/-- A check at the end of the client's window or later. -/
theorem check_of_le (hmax : 0 < s.maxRequests) (h : Alike s now (l.find? c) (some w))
    (hended : w.start + s.window ≤ now) :
    (check s l c now).2 = .ok () ∧ (check s l c now).1.find? c = some ⟨1, now⟩ := by
  have hentry : ∀ v, l.find? c = some v → s.window ≤ now - v.start := by
    intro v hv
    rw [hv] at h
    cases h with
    | same =>
      dsimp only [Time] at *
      omega
  have hcases := check_cases hmax l c now
  generalize check s l c now = result at hcases
  cases hcases with
  | refused hw hopen _ => exact absurd (hentry _ hw) (Nat.not_le.2 hopen)
  | joined hw hopen _ => exact absurd (hentry _ hw) (Nat.not_le.2 hopen)
  | opened => exact ⟨rfl, lookup_put_self ..⟩

/-! ## Runs -/

/-- What a run leaves of a client has begun by now and is not overfull, in whatever order the
calls were made. -/
theorem entry_run (hmax : 0 < s.maxRequests) (hpast : ∀ x ∈ calls, x.1 ≤ now)
    (hw : (run s empty calls).find? c = some w) : w.start ≤ now ∧ w.count ≤ s.maxRequests := by
  induction calls using List.reverseRecOn generalizing w with
  | nil => cases hw
  | append_singleton calls x ih =>
    obtain ⟨t, call⟩ := x
    have hle : t ≤ now := hpast (t, call) (by simp)
    replace ih {v : Window} := @ih v fun x hx => hpast x (List.mem_append_left _ hx)
    rw [run_append_singleton] at hw
    cases call with
    | cleanup =>
      rw [Limiter.call, find?_cleanup (keys_run_nodup hmax calls)] at hw
      exact ih (Option.filter_eq_some_iff.1 hw).1
    | check d =>
      dsimp only [Limiter.call] at hw
      by_cases hd : c = d
      · subst hd
        have hcases := check_cases hmax (run s empty calls) c t
        generalize check s (run s empty calls) c t = result at hcases hw
        cases hcases with
        | refused => exact ih hw
        | joined hv _ hroom =>
          cases (lookup_put_self ..).symm.trans hw
          exact ⟨(ih hv).1, hroom⟩
        | opened =>
          cases (lookup_put_self ..).symm.trans hw
          exact ⟨hle, hmax⟩
      · rw [find?_check_of_ne hd] at hw
        exact ih hw

theorem Meanwhile.of_append_singleton {start stop : Time} {x : Time × Call}
    (h : Meanwhile start stop (calls ++ [x])) :
    Meanwhile start x.1 calls ∧ start ≤ x.1 ∧ x.1 ≤ stop := by
  obtain ⟨hcalls, -, hlast⟩ := List.pairwise_append.1 h.order
  obtain ⟨hge, hle⟩ := h.within x (by simp)
  refine ⟨⟨hcalls, fun y hy => ⟨?_, hlast y hy x List.mem_cons_self⟩, hge⟩, hge, hle⟩
  exact (h.within y (List.mem_append_left _ hy)).1

/-- **Only the client's own checks count for its window**, and no cleanup takes it away before its
end. -/
theorem alike_after (hmax : 0 < s.maxRequests) (hw : (run s empty before).find? c = some w)
    (hcount : w.count ≤ s.maxRequests) (hstart : w.start ≤ now) (h : Meanwhile now later calls)
    (hopen : ∀ x ∈ own c calls, x.1 < w.start + s.window) :
    Alike s later ((run s empty (before ++ calls)).find? c)
      (some (w.after s (own c calls).length)) := by
  -- By the last call: the entry before it is alike at its moment, and only an own check, which
  -- comes before the end and so finds the entry there, changes it.
  induction calls using List.reverseRecOn generalizing later with
  | nil =>
    rw [List.append_nil, hw, own, List.filter_nil, List.length_nil, Window.after_zero hcount]
    exact .same _
  | append_singleton calls x ih =>
    obtain ⟨t, call⟩ := x
    obtain ⟨hcalls, hge, hle⟩ := h.of_append_singleton
    have hown : own c (calls ++ [(t, call)]) = own c calls ++ own c [(t, call)] :=
      List.filter_append ..
    rw [hown] at hopen ⊢
    replace ih := ih hcalls fun x hx => hopen x (List.mem_append_left _ hx)
    refine Alike.mono ?_ hle
    rw [← List.append_assoc, run_append_singleton]
    cases call with
    | cleanup =>
      rw [Limiter.call, find?_cleanup (keys_run_nodup hmax _)]
      simpa [own] using ih.cleanup
    | check d =>
      dsimp only [Limiter.call]
      by_cases hd : c = d
      · subst hd
        have hlt : t < w.start + s.window := hopen (t, .check c) (by simp [own])
        have hfound := ih.eq_of_lt (hstart.trans hge) hlt
        have hcheck := check_of_lt hmax hfound (w.count_after_le ..) (hstart.trans hge) hlt
        rw [hcheck.2, Window.after_after]
        simpa [own] using Alike.same _
      · rw [find?_check_of_ne hd]
        simpa [own, Ne.symm hd] using ih

/-- What a check is answered before the end of the client's window. -/
theorem check_after (hmax : 0 < s.maxRequests) (hw : (run s empty before).find? c = some w)
    (hcount : w.count ≤ s.maxRequests) (hstart : w.start ≤ now) (h : Meanwhile now later calls)
    (hlater : later < w.start + s.window) :
    (check s (run s empty (before ++ calls)) c later).2 =
      (w.after s (own c calls).length).answer s later := by
  have hopen : ∀ x ∈ own c calls, x.1 < w.start + s.window := fun x hx =>
    (h.within x (List.mem_of_mem_filter hx)).2.trans_lt hlater
  have hfound := (alike_after hmax hw hcount hstart h hopen).eq_of_lt (hstart.trans h.le) hlater
  exact (check_of_lt hmax hfound (w.count_after_le ..) (hstart.trans h.le) hlater).1

/-- **The end that a refusal names is the end of the refusals.** After `r`, given at `now`, every
further check before `now + r.retryAfter` is refused and names the same end, and the first one
that is not before it is admitted and opens a window that admits as many as any, whatever calls
are made in between. -/
theorem retry_spec (hmax : 0 < s.maxRequests) (hpast : ∀ x ∈ before, x.1 ≤ now)
    (hrefused : (check s (run s empty before) c now).2 = .error r) :
    r.limit = s.maxRequests ∧ r.window = s.window ∧ 0 < r.retryAfter ∧ r.retryAfter ≤ s.window ∧
    ∀ between u, Meanwhile now u between →
      (∀ x ∈ own c between, x.1 < now + r.retryAfter) →
      let met := before ++ (now, .check c) :: between
      (u < now + r.retryAfter → (check s (run s empty met) c u).2 =
        .error ⟨s.maxRequests, s.window, now + r.retryAfter - u⟩) ∧
      (now + r.retryAfter ≤ u → (check s (run s empty met) c u).2 = .ok () ∧
        ∀ after v, Meanwhile u v after → v < u + s.window →
          (check s (run s empty (met ++ (u, .check c) :: after)) c v).2 =
            if (own c after).length + 1 < s.maxRequests then .ok ()
            else .error ⟨s.maxRequests, s.window, u + s.window - v⟩) := by
  have hcases := check_cases hmax (run s empty before) c now
  generalize hresult : check s (run s empty before) c now = result at hcases hrefused
  cases hcases with
  | joined => cases hrefused
  | opened => cases hrefused
  | @refused w hw hopen hfull =>
    obtain ⟨hstart, hcount⟩ := entry_run hmax hpast hw
    cases hrefused
    have hend : now + (s.window - (now - w.start)) = w.start + s.window := by
      dsimp only [Time] at *
      omega
    refine ⟨rfl, rfl, Nat.sub_pos_of_lt hopen, Nat.sub_le _ _, fun between u h hown => ?_⟩
    have hmet : run s empty (before ++ [(now, .check c)]) = run s empty before := by
      rw [run_append_singleton, Limiter.call, hresult]
    have hw' : (run s empty (before ++ [(now, .check c)])).find? c = some w := hmet ▸ hw
    dsimp only
    rw [hend] at hown ⊢
    rw [List.append_cons]
    constructor
    · intro hlt
      rw [check_after hmax hw' hcount hstart h hlt, Window.answer_after,
        if_neg (Nat.not_lt.2 (hfull.trans (Nat.le_add_right _ _)))]
    · intro hended
      have halike := alike_after hmax hw' hcount hstart h hown
      obtain ⟨hok, hopened⟩ := check_of_le hmax halike hended
      refine ⟨hok, fun after v hafter hv => ?_⟩
      have hfound : (run s empty (before ++ [(now, .check c)] ++ between ++
          [(u, .check c)])).find? c = some ⟨1, u⟩ := by
        rw [run_append_singleton]
        exact hopened
      rw [List.append_cons, check_after hmax hfound hmax le_rfl hafter hv, Window.answer_after,
        Nat.add_comm 1]

def hasty : IpAddress := .v4 [198, 51, 100, 4]

def patient : IpAddress := .v4 [198, 51, 100, 5]

/-- The hasty client is refused with the end of its window at 10, asks again at 9, and comes back
at 11, when its window has been forgotten; the window it opens then has room for one more. -/
theorem retry_spec_hasty :
    let met : List (Time × Call) :=
      [(0, .check hasty), (1, .check patient), (3, .check hasty), (4, .check hasty),
        (9, .check hasty), (9, .check patient), (10, .cleanup), (10, .check patient)]
    (check ⟨2, 10⟩ (run ⟨2, 10⟩ empty (met.take 3)) hasty 4).2 = .error ⟨2, 10, 6⟩ ∧
    (check ⟨2, 10⟩ (run ⟨2, 10⟩ empty (met.take 4)) hasty 9).2 = .error ⟨2, 10, 1⟩ ∧
    (check ⟨2, 10⟩ (run ⟨2, 10⟩ empty met) hasty 11).2 = .ok () ∧
    (check ⟨2, 10⟩ (run ⟨2, 10⟩ empty
      (met ++ [(11, .check hasty), (12, .check hasty), (13, .cleanup)])) hasty 20).2 =
        .error ⟨2, 10, 1⟩ := by
  intro met
  have hrefused : (check ⟨2, 10⟩ (run ⟨2, 10⟩ empty (met.take 3)) hasty 4).2 =
      .error ⟨2, 10, 6⟩ := by rfl
  obtain ⟨-, -, -, -, hspec⟩ := retry_spec (by decide) (by decide) hrefused
  have hearly : Meanwhile 4 9 [] := ⟨List.Pairwise.nil, by decide, by decide⟩
  have hlate : Meanwhile 4 11 (met.drop 4) := ⟨by unfold InOrder; decide, by decide, by decide⟩
  have hthen : Meanwhile 11 20 [(12, .check hasty), (13, .cleanup)] :=
    ⟨by unfold InOrder; decide, by decide, by decide⟩
  obtain ⟨hopened, hnext⟩ := (hspec _ _ hlate (by decide)).2 (by decide)
  exact ⟨hrefused, (hspec _ _ hearly (by decide)).1 (by decide), hopened,
    hnext _ _ hthen (by decide)⟩

end Quorum.Limiter
