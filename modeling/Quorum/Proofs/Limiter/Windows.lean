import Mathlib
import Quorum.Proofs.Limiter.Check

/-!
# The windows of the rate limit

The admitted checks of one client fall into windows (`Windowed`): each is opened by its first
admission, holds no more than `maxRequests` of them, all before its end, and the next one opens
no earlier than that. `Known` ties what the limiter remembers of a client to these windows: an
entry is the last window, and no entry means that all of them have ended. Every call preserves
it (`known_run`), whatever other clients do, so the limits hold of every run (`windows_spec`).
-/

namespace Quorum.Limiter

/-- The moment of the call, if it is an admitted check of the client. -/
def admitted? (c : IpAddress) (x : (Time × Call) × Option (Except Refusal Unit)) : Option Time :=
  match x.1.2, x.2 with
  | .check d, some (.ok ()) => if d = c then some x.1.1 else none
  | _, _ => none

/-- The moments of the admitted checks of a client in a run. -/
def admissions (s : Settings) (calls : List (Time × Call)) (c : IpAddress) : List Time :=
  (calls.zip (answers s empty calls)).filterMap (admitted? c)

/-- The admissions of one window: the one that opens it, and the others in their order. -/
structure Batch where
  opened : Time
  others : List Time

def Batch.times (b : Batch) : List Time := b.opened :: b.others

/-- Admissions that fall into windows, one after the other. -/
structure Windowed (s : Settings) (times : List Time) (bs : List Batch) : Prop where
  all : bs.flatMap Batch.times = times
  count : ∀ b ∈ bs, b.times.length ≤ s.maxRequests
  within : ∀ b ∈ bs, ∀ t ∈ b.others, b.opened ≤ t ∧ t < b.opened + s.window
  apart : bs.Pairwise fun a b => a.opened + s.window ≤ b.opened

/-- What is remembered of a client at `now`, after its admissions so far: the last window, or
nothing once that has ended. -/
inductive Known (s : Settings) (now : Time) (times : List Time) : Option Window → Prop where
  | forgotten {bs : List Batch} (h : Windowed s times bs)
      (hended : ∀ b ∈ bs, b.opened + s.window ≤ now) : Known s now times none
  | last {bs : List Batch} {b : Batch} (h : Windowed s times (bs ++ [b])) (hle : b.opened ≤ now) :
      Known s now times (some ⟨b.times.length, b.opened⟩)

variable {s : Settings} {c : IpAddress} {now : Time} {times : List Time} {bs : List Batch}
  {b : Batch} {w : Window} {found : Option Window}

/-! ## Windows -/

theorem Windowed.append_batch (h : Windowed s times bs) (hmax : 0 < s.maxRequests)
    (hended : ∀ b ∈ bs, b.opened + s.window ≤ now) :
    Windowed s (times ++ [now]) (bs ++ [⟨now, []⟩]) where
  all := by simp [h.all, Batch.times]
  count := by
    intro b hb
    rcases List.mem_append.1 hb with hb | hb
    · exact h.count b hb
    · rw [List.mem_singleton.1 hb]
      exact hmax
  within := by
    intro b hb
    rcases List.mem_append.1 hb with hb | hb
    · exact h.within b hb
    · rw [List.mem_singleton.1 hb]
      nofun
  apart := by
    refine List.pairwise_append.2 ⟨h.apart, List.pairwise_singleton _ _, fun a ha b hb => ?_⟩
    rw [List.mem_singleton.1 hb]
    exact hended a ha

theorem Windowed.append_last (h : Windowed s times (bs ++ [b]))
    (hroom : b.times.length < s.maxRequests) (hle : b.opened ≤ now)
    (hopen : now < b.opened + s.window) :
    Windowed s (times ++ [now]) (bs ++ [⟨b.opened, b.others ++ [now]⟩]) where
  all := by simp [← h.all, Batch.times]
  count := by
    intro a ha
    rcases List.mem_append.1 ha with ha | ha
    · exact h.count a (List.mem_append_left _ ha)
    · rw [List.mem_singleton.1 ha]
      simpa [Batch.times] using hroom
  within := by
    intro a ha t ht
    rcases List.mem_append.1 ha with ha | ha
    · exact h.within a (List.mem_append_left _ ha) t ht
    · rw [List.mem_singleton.1 ha] at ht ⊢
      rcases List.mem_append.1 ht with ht | ht
      · exact h.within b (List.mem_append_right _ List.mem_cons_self) t ht
      · rw [List.mem_singleton.1 ht]
        exact ⟨hle, hopen⟩
  apart := by
    obtain ⟨hbs, -, hlast⟩ := List.pairwise_append.1 h.apart
    refine List.pairwise_append.2 ⟨hbs, List.pairwise_singleton _ _, fun a ha b' hb' => ?_⟩
    rw [List.mem_singleton.1 hb']
    exact hlast a ha b List.mem_cons_self

/-- The windows before the last one had ended when that was opened. -/
theorem Windowed.opened_add_le (h : Windowed s times (bs ++ [b])) (hb : b.opened + s.window ≤ now) :
    ∀ a ∈ bs ++ [b], a.opened + s.window ≤ now := by
  intro a ha
  rcases List.mem_append.1 ha with ha | ha
  · have hab := (List.pairwise_append.1 h.apart).2.2 a ha b List.mem_cons_self
    exact hab.trans ((Nat.le_add_right _ _).trans hb)
  · rwa [List.mem_singleton.1 ha]

theorem Windowed.bounds (h : Windowed s times bs) (hw : 0 < s.window) (hb : b ∈ bs) {t : Time}
    (ht : t ∈ b.times) : b.opened ≤ t ∧ t < b.opened + s.window := by
  rcases List.mem_cons.1 ht with rfl | ht
  · exact ⟨Nat.le_refl _, Nat.lt_add_of_pos_right hw⟩
  · exact h.within b hb t ht

/-! ## A stretch as long as a window -/

/-- The moments from `start` on, for as long as a window lasts. -/
def stretch (s : Settings) (start t : Time) : Bool := decide (start ≤ t ∧ t < start + s.window)

/-- Whether the window may have admissions in the stretch that begins at `start`. -/
def Batch.touches (s : Settings) (start : Time) (b : Batch) : Bool :=
  decide (start < b.opened + s.window ∧ b.opened < start + s.window)

theorem Windowed.countP_times_le (h : Windowed s times bs) (hw : 0 < s.window) (start : Time)
    (hb : b ∈ bs) :
    b.times.countP (stretch s start) ≤ if b.touches s start then s.maxRequests else 0 := by
  split
  · exact List.countP_le_length.trans (h.count b hb)
  · rename_i hout
    refine Nat.le_of_eq (List.countP_eq_zero.2 fun t ht hin => hout ?_)
    have hbounds := h.bounds hw hb ht
    simp only [stretch, Batch.touches, decide_eq_true_eq] at hin ⊢
    exact ⟨hin.1.trans_lt hbounds.2, hbounds.1.trans_lt hin.2⟩

theorem Windowed.countP_flatMap_le (h : Windowed s times bs) (hw : 0 < s.window) (start : Time) :
    ∀ l : List Batch, (∀ b ∈ l, b ∈ bs) →
      (l.flatMap Batch.times).countP (stretch s start) ≤
        (l.filter (Batch.touches s start)).length * s.maxRequests
  | [], _ => by simp
  | b :: l, hl => by
    have hb := h.countP_times_le hw start (hl b List.mem_cons_self)
    have hrest := h.countP_flatMap_le hw start l fun b' hb' => hl b' (List.mem_cons_of_mem _ hb')
    rw [List.flatMap_cons, List.countP_append]
    by_cases ht : b.touches s start = true
    · rw [if_pos ht] at hb
      rw [List.filter_cons_of_pos ht, List.length_cons, Nat.succ_mul]
      omega
    · rw [if_neg ht] at hb
      rw [List.filter_cons_of_neg ht]
      omega

/-- A stretch touches two windows at most: with a third one between them, the first would have
ended before the stretch begins or the last would open after its end. -/
theorem Windowed.length_touches_le (h : Windowed s times bs) (start : Time) :
    (bs.filter (Batch.touches s start)).length ≤ 2 := by
  have hapart := h.apart.sublist (List.filter_sublist (p := Batch.touches s start))
  have htouch : ∀ b ∈ bs.filter (Batch.touches s start),
      start < b.opened + s.window ∧ b.opened < start + s.window := fun b hb =>
    of_decide_eq_true (List.mem_filter.1 hb).2
  rcases hl : bs.filter (Batch.touches s start) with _ | ⟨x, _ | ⟨y, _ | ⟨z, l⟩⟩⟩
  · simp
  · simp
  · simp
  · rw [hl] at hapart htouch
    simp only [List.pairwise_cons, List.mem_cons] at hapart
    have hx := (htouch x (by simp)).1
    have hz := (htouch z (by simp)).2
    have hxy := hapart.1 y (.inl rfl)
    have hyz := hapart.2.1 z (.inl rfl)
    dsimp only [Time] at *
    omega

theorem Windowed.countP_le (h : Windowed s times bs) (hw : 0 < s.window) (start : Time) :
    times.countP (fun t => start ≤ t ∧ t < start + s.window) ≤ 2 * s.maxRequests := by
  have hcount := h.countP_flatMap_le hw start bs fun _ hb => hb
  rw [h.all] at hcount
  exact hcount.trans (Nat.mul_le_mul_right _ (h.length_touches_le start))

/-! ## What the limiter remembers -/

theorem Known.windowed (h : Known s now times found) : ∃ bs, Windowed s times bs := by
  cases h with
  | forgotten h _ => exact ⟨_, h⟩
  | last h _ => exact ⟨_, h⟩

theorem Known.mono (h : Known s now times found) {later : Time} (hle : now ≤ later) :
    Known s later times found := by
  cases h with
  | forgotten h hended => exact .forgotten h fun b hb => (hended b hb).trans hle
  | last h hb => exact .last h (hb.trans hle)

theorem Known.count_le (h : Known s now times (some w)) : w.count ≤ s.maxRequests := by
  cases h with
  | last h _ => exact h.count _ (List.mem_append_right _ List.mem_cons_self)

/-- An admission that opens a window. -/
theorem Known.opened (h : Known s now times found) (hmax : 0 < s.maxRequests)
    (hended : ∀ w, found = some w → s.window ≤ now - w.start) :
    Known s now (times ++ [now]) (some ⟨1, now⟩) := by
  cases h with
  | forgotten h hall => exact .last (b := ⟨now, []⟩) (h.append_batch hmax hall) (Nat.le_refl _)
  | @last bs b h hle =>
    have hend : b.opened + s.window ≤ now := by
      have := hended _ rfl
      dsimp only [Time] at *
      omega
    exact .last (b := ⟨now, []⟩) (h.append_batch hmax (h.opened_add_le hend)) (Nat.le_refl _)

/-- An admission into the open window. -/
theorem Known.joined (h : Known s now times (some w)) (hopen : now - w.start < s.window)
    (hroom : w.count < s.maxRequests) :
    Known s now (times ++ [now]) (some ⟨w.count + 1, w.start⟩) := by
  cases h with
  | @last bs b h hle =>
    have hlt : now < b.opened + s.window := by
      dsimp only [Time] at *
      omega
    have hlast := Known.last (h.append_last hroom hle hlt) hle
    simpa [Batch.times] using hlast

/-- Forgetting a window that has ended. -/
theorem Known.cleanup (h : Known s now times found) :
    Known s now times (found.filter fun w => decide (now - w.start < s.window)) := by
  cases h with
  | forgotten h hended => exact .forgotten h hended
  | @last bs b h hle =>
    by_cases hopen : now - b.opened < s.window
    · simpa [Option.filter, hopen] using Known.last h hle
    · have hend : b.opened + s.window ≤ now := by
        dsimp only [Time] at *
        omega
      simpa [Option.filter, hopen] using Known.forgotten h (h.opened_add_le hend)

/-- A full window that is still open holds as many admissions as fit, none of them a window ago. -/
theorem Known.le_countP (h : Known s now times (some w)) (hpast : ∀ t ∈ times, t ≤ now)
    (hopen : now - w.start < s.window) :
    w.count ≤ times.countP fun t => now < t + s.window ∧ t ≤ now := by
  cases h with
  | @last bs b h hle =>
    have hin : ∀ t ∈ b.times, t ∈ times := by
      intro t ht
      rw [← h.all, List.mem_flatMap]
      exact ⟨b, List.mem_append_right _ List.mem_cons_self, ht⟩
    have hcount : b.times.countP (fun t => now < t + s.window ∧ t ≤ now) = b.times.length := by
      refine List.countP_eq_length.2 fun t ht => decide_eq_true ⟨?_, hpast t (hin t ht)⟩
      have hge : b.opened ≤ t := by
        rcases List.mem_cons.1 ht with rfl | ht
        · exact Nat.le_refl _
        · exact (h.within b (List.mem_append_right _ List.mem_cons_self) t ht).1
      dsimp only [Time] at *
      omega
    have hall : times = bs.flatMap Batch.times ++ b.times := by simp [← h.all]
    rw [hall, List.countP_append, hcount]
    exact Nat.le_add_left _ _

/-! ## Runs -/

theorem admissions_append_singleton (calls : List (Time × Call)) (x : Time × Call)
    (c : IpAddress) : admissions s (calls ++ [x]) c = admissions s calls c ++
      (admitted? c (x, (call s (run s empty calls) x.1 x.2).1)).toList := by
  rw [admissions, zip_answers_append_singleton, List.filterMap_append]
  rfl

theorem mem_admissions_le {calls : List (Time × Call)} (h : ∀ x ∈ calls, x.1 ≤ now) :
    ∀ t ∈ admissions s calls c, t ≤ now := by
  intro t ht
  obtain ⟨x, hx, hadm⟩ := List.mem_filterMap.1 ht
  have hmem := h x.1 (List.of_mem_zip hx).1
  unfold admitted? at hadm
  split at hadm
  · split at hadm
    · exact Option.some.inj hadm ▸ hmem
    · cases hadm
  · cases hadm

/-- **What the limiter remembers of a client is what its admissions come to**, whatever calls
others made in between. -/
theorem known_run (hmax : 0 < s.maxRequests) {calls : List (Time × Call)} (horder : InOrder calls)
    (hpast : ∀ x ∈ calls, x.1 ≤ now) (c : IpAddress) :
    Known s now (admissions s calls c) ((run s empty calls).find? c) := by
  induction calls using List.reverseRecOn generalizing now with
  | nil =>
    have hnone : Windowed s [] [] := ⟨rfl, by simp, by simp, List.Pairwise.nil⟩
    exact .forgotten hnone (by simp)
  | append_singleton calls x ih =>
    obtain ⟨t, call⟩ := x
    obtain ⟨hcalls, -, hlast⟩ := List.pairwise_append.1 horder
    have hknown := ih hcalls fun x hx => hlast x hx (t, call) List.mem_cons_self
    have hle : t ≤ now := hpast (t, call) (by simp)
    refine Known.mono ?_ hle
    rw [run_append_singleton, admissions_append_singleton]
    cases call with
    | cleanup =>
      simp only [Limiter.call, admitted?, Option.toList_none, List.append_nil,
        find?_cleanup (keys_run_nodup hmax calls)]
      exact hknown.cleanup
    | check d =>
      simp only [Limiter.call]
      by_cases hd : d = c
      · subst hd
        have hcases := check_cases hmax (run s empty calls) d t
        generalize check s (run s empty calls) d t = r at hcases
        cases hcases with
        | refused => simpa [admitted?] using hknown
        | joined hw hopen hroom =>
          rw [hw] at hknown
          simpa [admitted?, find?, lookup_put_self] using hknown.joined hopen hroom
        | opened hended =>
          simpa [admitted?, find?, lookup_put_self] using hknown.opened hmax hended
      · have hnot : admitted? c ((t, .check d), some (check s (run s empty calls) d t).2) = none := by
          unfold admitted?
          split <;> simp_all
        rw [find?_check_of_ne fun h => hd h.symm, hnot]
        simpa using hknown

/-- **A client is held to its windows, and refused for nothing else.** Its admissions fall into
windows, so any stretch as long as a window holds no more than twice `maxRequests` of them; a
check is refused only when as many checks of the same client were admitted less than a window
ago, and then changes nothing; and no counter passes `maxRequests`. -/
theorem windows_spec (s : Settings) (hmax : 0 < s.maxRequests) (calls : List (Time × Call))
    (horder : InOrder calls) :
    (∀ c, ∃ bs, Windowed s (admissions s calls c) bs) ∧
    (∀ c start, 0 < s.window → (admissions s calls c).countP
      (fun t => start ≤ t ∧ t < start + s.window) ≤ 2 * s.maxRequests) ∧
    (∀ before now c after refusal, calls = before ++ (now, .check c) :: after →
      (call s (run s empty before) now (.check c)).1 = some (.error refusal) →
        s.maxRequests ≤
            (admissions s before c).countP (fun t => now < t + s.window ∧ t ≤ now) ∧
          (call s (run s empty before) now (.check c)).2 = run s empty before) ∧
    ∀ c w, (c, w) ∈ (run s empty calls).windows → w.count ≤ s.maxRequests := by
  obtain ⟨now, hnow⟩ : ∃ now, ∀ x ∈ calls, x.1 ≤ now :=
    ⟨(calls.map Prod.fst).foldr max 0, fun x hx => List.le_max_of_le (List.mem_map_of_mem hx) le_rfl⟩
  have hknown := known_run hmax horder hnow
  refine ⟨fun c => (hknown c).windowed, fun c start hw => ?_, ?_, fun c w hmem => ?_⟩
  · obtain ⟨bs, hbs⟩ := (hknown c).windowed
    exact hbs.countP_le hw start
  · rintro before now c after refusal rfl hrefused
    obtain ⟨hbefore, -, hpast⟩ := List.pairwise_append.1 horder
    have hpast : ∀ x ∈ before, x.1 ≤ now := fun x hx => hpast x hx (now, .check c) List.mem_cons_self
    have hthen := known_run hmax hbefore hpast c
    simp only [call] at hrefused ⊢
    have hcases := check_cases hmax (run s empty before) c now
    generalize check s (run s empty before) c now = r at hcases hrefused
    cases hcases with
    | refused hw hopen hfull =>
      rw [hw] at hthen
      exact ⟨hfull.trans (hthen.le_countP (mem_admissions_le hpast) hopen), rfl⟩
    | joined => cases hrefused
    | opened => cases hrefused
  · have hlookup := lookup_eq_some_of_mem (keys_run_nodup hmax calls) hmem
    have := hknown c
    rw [find?, hlookup] at this
    exact this.count_le

def guest : IpAddress := .v4 [192, 0, 2, 1]

/-- The guest asks once too often; another client does not. -/
def crowded : List (Time × Call) :=
  [(0, .check guest), (1, .check (.v4 [192, 0, 2, 2])), (9, .check guest), (9, .check guest),
    (10, .cleanup), (10, .check guest)]

theorem windows_spec_crowded :
    InOrder crowded ∧ admissions ⟨2, 10⟩ crowded guest = [0, 9, 10] ∧
      (∃ bs, Windowed ⟨2, 10⟩ [0, 9, 10] bs) ∧
        2 ≤ (admissions ⟨2, 10⟩ (crowded.take 3) guest).countP
          fun t => 9 < t + 10 ∧ t ≤ 9 := by
  have horder : InOrder crowded := by unfold InOrder; decide
  have hadm : admissions ⟨2, 10⟩ crowded guest = [0, 9, 10] := by decide
  have hspec := windows_spec ⟨2, 10⟩ (by decide) crowded horder
  exact ⟨horder, hadm, hadm ▸ hspec.1 guest, (hspec.2.2.1 _ 9 guest _ ⟨2, 10, 1⟩ rfl rfl).1⟩

end Quorum.Limiter
