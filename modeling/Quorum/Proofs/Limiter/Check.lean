import Mathlib
import Quorum.Limiter.Calls

/-!
# What a check and a cleanup do

A check does one of three things (`check_cases`): it refuses and changes nothing, it joins the
client's open window, or it opens a new one. The windows of other clients stay as they are, and
a cleanup only takes windows away that have ended (`find?_cleanup`). Each client has one window
at most throughout (`keys_run_nodup`). For settings that admit nothing, or whose windows end at
once, `check_eq` still says what a check does, by the window that a request falls into
(`current`).
-/

namespace Quorum.Limiter

variable {s : Settings} {l : Limiter} {c d : IpAddress} {w : Window} {now : Time}

/-! ## The table of windows -/

theorem lookup_put_self (c : IpAddress) (w : Window) (ws : List (IpAddress × Window)) :
    (put c w ws).lookup c = some w := by
  induction ws with
  | nil => simp [put]
  | cons x ws ih =>
    obtain ⟨d, v⟩ := x
    unfold put
    by_cases h : d = c
    · simp [h]
    · have hne : (c == d) = false := beq_eq_false_iff_ne.2 fun heq => h heq.symm
      rw [if_neg h, List.lookup_cons, hne, ih]

theorem lookup_put_of_ne {ws : List (IpAddress × Window)} (h : d ≠ c) :
    (put c w ws).lookup d = ws.lookup d := by
  have hdc : (d == c) = false := beq_eq_false_iff_ne.2 h
  induction ws with
  | nil => simp [put, h]
  | cons x ws ih =>
    obtain ⟨e, v⟩ := x
    unfold put
    by_cases he : e = c
    · rw [if_pos he, List.lookup_cons, List.lookup_cons, he, hdc]
    · rw [if_neg he, List.lookup_cons, List.lookup_cons, ih]

theorem put_eq_self {ws : List (IpAddress × Window)} (h : ws.lookup c = some w) :
    put c w ws = ws := by
  induction ws with
  | nil => cases h
  | cons x ws ih =>
    obtain ⟨d, v⟩ := x
    unfold put
    by_cases hd : d = c
    · rw [List.lookup_cons, hd, beq_self_eq_true] at h
      cases h
      rw [if_pos hd, hd]
    · have hne : (c == d) = false := beq_eq_false_iff_ne.2 fun heq => hd heq.symm
      rw [List.lookup_cons, hne] at h
      rw [if_neg hd, ih h]

theorem mem_keys_put {ws : List (IpAddress × Window)} :
    d ∈ (put c w ws).map Prod.fst ↔ d = c ∨ d ∈ ws.map Prod.fst := by
  induction ws with
  | nil => simp [put]
  | cons x ws ih =>
    obtain ⟨e, v⟩ := x
    unfold put
    by_cases he : e = c
    · simp [he]
    · rw [if_neg he, List.map_cons, List.mem_cons, ih, List.map_cons, List.mem_cons]
      tauto

theorem keys_put_nodup {ws : List (IpAddress × Window)} (h : (ws.map Prod.fst).Nodup) :
    ((put c w ws).map Prod.fst).Nodup := by
  induction ws with
  | nil => simp [put]
  | cons x ws ih =>
    obtain ⟨d, v⟩ := x
    rw [List.map_cons, List.nodup_cons] at h
    unfold put
    by_cases hd : d = c
    · rw [if_pos hd, List.map_cons, List.nodup_cons, ← hd]
      exact h
    · rw [if_neg hd, List.map_cons, List.nodup_cons, mem_keys_put, not_or]
      exact ⟨⟨hd, h.1⟩, ih h.2⟩

theorem lookup_eq_some_of_mem {ws : List (IpAddress × Window)} (hnodup : (ws.map Prod.fst).Nodup)
    (h : (c, w) ∈ ws) : ws.lookup c = some w := by
  induction ws with
  | nil => cases h
  | cons x ws ih =>
    rw [List.map_cons, List.nodup_cons] at hnodup
    rcases List.mem_cons.1 h with rfl | h
    · rw [List.lookup_cons, beq_self_eq_true]
    · have hne : (c == x.1) = false := by
        rw [beq_eq_false_iff_ne]
        intro heq
        exact hnodup.1 (List.mem_map.2 ⟨(c, w), h, heq⟩)
      rw [List.lookup_cons, hne, ih hnodup.2 h]

theorem lookup_filter {ws : List (IpAddress × Window)} (hnodup : (ws.map Prod.fst).Nodup)
    (keep : Window → Bool) :
    (ws.filter fun x => keep x.2).lookup c = (ws.lookup c).filter keep := by
  induction ws with
  | nil => rfl
  | cons x ws ih =>
    rw [List.map_cons, List.nodup_cons] at hnodup
    obtain ⟨d, v⟩ := x
    by_cases hd : c = d
    · subst hd
      have hout : ws.lookup c = none := by
        rw [List.lookup_eq_none_iff]
        intro x hx
        rw [bne_iff_ne]
        intro heq
        exact hnodup.1 (List.mem_map.2 ⟨x, hx, heq.symm⟩)
      by_cases hk : keep v = true
      · simp [hk, Option.filter]
      · simp [hk, ih hnodup.2, hout, Option.filter]
    · have hne : (c == d) = false := beq_eq_false_iff_ne.2 hd
      by_cases hk : keep v = true
      · simp [hk, hne, List.lookup_cons, ih hnodup.2]
      · simp [hk, hne, List.lookup_cons, ih hnodup.2]

/-! ## One call -/

/-- The ways a check can go. -/
inductive Checked (s : Settings) (l : Limiter) (c : IpAddress) (now : Time) :
    Limiter × Except Refusal Unit → Prop where
  /-- The client's window is open and full. -/
  | refused {w : Window} (hw : l.find? c = some w) (hopen : now - w.start < s.window)
      (hfull : s.maxRequests ≤ w.count) :
      Checked s l c now (l, .error ⟨s.maxRequests, s.window, s.window - (now - w.start)⟩)
  /-- The client's window is open and has room. -/
  | joined {w : Window} (hw : l.find? c = some w) (hopen : now - w.start < s.window)
      (hroom : w.count < s.maxRequests) :
      Checked s l c now (⟨put c ⟨w.count + 1, w.start⟩ l.windows⟩, .ok ())
  /-- The client has no open window. -/
  | opened (hended : ∀ w, l.find? c = some w → s.window ≤ now - w.start) :
      Checked s l c now (⟨put c ⟨1, now⟩ l.windows⟩, .ok ())

theorem check_cases (hmax : 0 < s.maxRequests) (l : Limiter) (c : IpAddress) (now : Time) :
    Checked s l c now (check s l c now) := by
  have hzero : ¬ s.maxRequests ≤ 0 := Nat.not_le.2 hmax
  unfold check
  cases hw : l.find? c with
  | none =>
    have hended : ∀ w, l.find? c = some w → s.window ≤ now - w.start := by
      intro w h
      rw [hw] at h
      cases h
    simpa [hzero] using Checked.opened hended
  | some w =>
    by_cases hopen : s.window ≤ now - w.start
    · have hended : ∀ v, l.find? c = some v → s.window ≤ now - v.start := by
        intro v h
        rw [hw] at h
        cases h
        exact hopen
      simpa [hopen, hzero] using Checked.opened hended
    · have hlt : now - w.start < s.window := Nat.lt_of_not_le hopen
      by_cases hfull : s.maxRequests ≤ w.count
      · simpa [hopen, hfull, put_eq_self hw] using Checked.refused hw hlt hfull
      · simpa [hopen, hfull] using Checked.joined hw hlt (Nat.lt_of_not_le hfull)

theorem find?_cleanup (hnodup : (l.windows.map Prod.fst).Nodup) :
    (cleanup s l now).find? c =
      (l.find? c).filter fun w => decide (now - w.start < s.window) :=
  lookup_filter hnodup fun w => decide (now - w.start < s.window)

/-! ## Any settings -/

/-- The window that a request of the client at `now` falls into. -/
def current (s : Settings) (l : Limiter) (c : IpAddress) (now : Time) : Window :=
  match l.find? c with
  | some w => if now - w.start < s.window then w else ⟨0, now⟩
  | none => ⟨0, now⟩

theorem current_eq (s : Settings) (l : Limiter) (c : IpAddress) (now : Time) :
    current s l c now =
      if s.window ≤ now - ((l.find? c).getD ⟨0, now⟩).start then ⟨0, now⟩
      else (l.find? c).getD ⟨0, now⟩ := by
  unfold current
  cases l.find? c with
  | none => simp
  | some w =>
    by_cases hopen : now - w.start < s.window
    · simp [hopen, Nat.not_le.2 hopen]
    · simp [hopen, Nat.le_of_not_lt hopen]

theorem check_eq (s : Settings) (l : Limiter) (c : IpAddress) (now : Time) :
    check s l c now =
      let w := current s l c now
      if s.maxRequests ≤ w.count then
        (⟨put c w l.windows⟩, .error ⟨s.maxRequests, s.window,
          s.window - (now - ((l.find? c).getD ⟨0, now⟩).start)⟩)
      else (⟨put c ⟨w.count + 1, w.start⟩ l.windows⟩, .ok ()) := by
  rw [current_eq]
  rfl

/-- An admitted request takes one place in its window. -/
theorem find?_check_of_ok (h : (check s l c now).2 = .ok ()) :
    (check s l c now).1.find? c =
      some ⟨(current s l c now).count + 1, (current s l c now).start⟩ := by
  rw [check_eq] at h ⊢
  dsimp only at h ⊢
  split at h
  · cases h
  · rename_i hroom
    rw [if_neg hroom]
    exact lookup_put_self ..

/-- A refused request takes none. -/
theorem find?_check_of_ne_ok (h : (check s l c now).2 ≠ .ok ()) :
    (check s l c now).1.find? c = some (current s l c now) := by
  rw [check_eq] at h ⊢
  dsimp only at h ⊢
  split at h
  · rename_i hfull
    rw [if_pos hfull]
    exact lookup_put_self ..
  · exact absurd rfl h

theorem find?_check_of_ne (h : d ≠ c) : (check s l c now).1.find? d = l.find? d := by
  rw [check_eq]
  dsimp only
  split <;> exact lookup_put_of_ne h

/-! ## Runs -/

theorem run_append_singleton (s : Settings) (l : Limiter) (calls : List (Time × Call))
    (x : Time × Call) : run s l (calls ++ [x]) = (call s (run s l calls) x.1 x.2).2 := by
  simp [run, List.foldl_append]

theorem answers_append_singleton (s : Settings) (l : Limiter) (calls : List (Time × Call))
    (x : Time × Call) :
    answers s l (calls ++ [x]) = answers s l calls ++ [(call s (run s l calls) x.1 x.2).1] := by
  induction calls generalizing l with
  | nil => rfl
  | cons y calls ih => exact congrArg _ (ih _)

theorem length_answers (s : Settings) (l : Limiter) (calls : List (Time × Call)) :
    (answers s l calls).length = calls.length := by
  induction calls generalizing l with
  | nil => rfl
  | cons y calls ih => exact congrArg (· + 1) (ih _)

theorem zip_answers_append_singleton (s : Settings) (l : Limiter) (calls : List (Time × Call))
    (x : Time × Call) : (calls ++ [x]).zip (answers s l (calls ++ [x])) =
      calls.zip (answers s l calls) ++ [(x, (call s (run s l calls) x.1 x.2).1)] := by
  rw [answers_append_singleton, List.zip_append (length_answers s l calls).symm]
  rfl

/-- **Each client has at most one window.** -/
theorem keys_run_nodup (hmax : 0 < s.maxRequests) (calls : List (Time × Call)) :
    ((run s empty calls).windows.map Prod.fst).Nodup := by
  induction calls using List.reverseRecOn with
  | nil => exact List.nodup_nil
  | append_singleton calls x ih =>
    obtain ⟨now, call⟩ := x
    rw [run_append_singleton]
    cases call with
    | check c =>
      have hcases := check_cases hmax (run s empty calls) c now
      simp only [Limiter.call]
      generalize check s (run s empty calls) c now = r at hcases
      cases hcases with
      | refused => exact ih
      | joined => exact keys_put_nodup ih
      | opened => exact keys_put_nodup ih
    | cleanup => exact ih.sublist (List.filter_sublist.map _)

end Quorum.Limiter
