import Mathlib
import Quorum.Proofs.Api.Errors

/-!
# Requests that no handler takes

A request is answered with 404 or 405 once it has passed all stages of its route and its method is
none of the route's (`respond_unhandled`). So whatever the stages do is done by then:
`unhandled_spec` tells which requests have the selector asked or a payload stored though nobody
handles them.
-/

namespace Quorum.Api

variable {σ : Type} {set : Settings} {sv : Services σ} {m : Moment} {r : HttpRequest}
  {st : State σ} {route : Route} {stages performed : List Stage} {x y : Exchange σ}

theorem Course.performed_eq (h : Course set sv m r stages x performed (.ok ()) y) :
    performed = stages := by
  generalize hresult : (Except.ok () : Except ApiError Unit) = result at h
  induction h with
  | done => rfl
  | failed => cases hresult
  | passed _ _ ih => rw [ih hresult]

/-- When all stages are passed, the first one is, and then the others. -/
theorem Course.tail_of_ok {s : Stage} (h : Course set sv m r (s :: stages) x performed (.ok ()) y) :
    ∃ z, s.perform set sv m r x = (.ok (), z) ∧ Course set sv m r stages z stages (.ok ()) y := by
  cases h with
  | passed h hrest =>
    obtain rfl := hrest.performed_eq
    exact ⟨_, h, hrest⟩

theorem stagesBehind_nodup (route : Option Route) : (stagesBehind route).Nodup := by
  cases route with
  | none => exact List.nodup_nil
  | some route => exact stages_nodup route

theorem rateLimit_not_mem_behind (route : Option Route) : .rateLimit ∉ stagesBehind route := by
  cases route with
  | none => exact List.not_mem_nil
  | some route => exact rateLimit_not_mem route

/-- **What is answered with 404 or 405** has passed all stages and is left to nobody. -/
theorem respond_unhandled {route : Option Route}
    (hroute : Route.ofPath? (pathOf r.target) = route)
    (h : (respond set sv m r st).1.status = 404 ∨ (respond set sv m r st).1.status = 405) :
    (∀ known, route = some known → r.method ∉ known.methods) ∧
    ∃ x, Course set sv m r (.rateLimit :: stagesBehind route) (.begin st)
        (.rateLimit :: stagesBehind route) (.ok ()) x ∧
      respond set sv m r st = (frame r false (unhandled route), x) := by
  have hother {n : Nat} (hn : n = 200 ∨ n ∈ errorCodes ∨ n ∈ refusalCodes) :
      ¬ (n = 404 ∨ n = 405) := by
    rintro (rfl | rfl) <;> revert hn <;> decide
  by_cases hoptions : (r.method == "OPTIONS") = true
  · rw [respond_options hoptions] at h
    exact absurd h (hother (.inl rfl))
  rw [respond_ending (Bool.eq_false_iff.2 hoptions) hroute] at h ⊢
  obtain ⟨performed, hcourse⟩ :=
    performAll_course set sv m r (.rateLimit :: stagesBehind route) (.begin st)
  generalize Stage.performAll set sv m r (.rateLimit :: stagesBehind route) (.begin st) = p
    at hcourse h ⊢
  obtain ⟨result, x⟩ := p
  cases result with
  | error e => exact absurd h (hother (.inr (.inl (hcourse.status_mem e rfl))))
  | ok _ =>
    obtain rfl := hcourse.performed_eq
    cases route with
    | none => exact ⟨nofun, x, hcourse, rfl⟩
    | some known =>
      by_cases hmethod : r.method ∈ known.methods
      · rw [ending_route hmethod] at h
        exact absurd h (hother ((status_handle_mem known x).imp_right
          (Or.imp_left (List.mem_cons_of_mem _))))
      · rw [ending_unmatched hmethod]
        exact ⟨fun _ heq => Option.some.inj heq ▸ hmethod, x, hcourse, rfl⟩

/-! ## What has been done by then -/

theorem routing_mem_behind {route : Option Route} :
    .routing ∈ stagesBehind route ↔ route = some .health ∨ route = some .process := by
  cases route with
  | none => decide
  | some route => cases route <;> decide

theorem contentRouting_mem_behind {route : Option Route} :
    .contentRouting ∈ stagesBehind route ↔ route = some .process := by
  cases route with
  | none => decide
  | some route => cases route <;> decide

theorem gate_of_passed (h : Stage.perform set sv m r x .routing = (.ok (), y)) :
    Selector.gate set.selector x.state.selector m.now = .ok () := by
  unfold Stage.perform at h
  dsimp only at h
  split at h
  · cases h
  · assumption

/-- Where the stages are passed and routing is one of them, the gate was open. -/
theorem gate_of_course {route : Option Route}
    (h : Course set sv m r (stagesBehind route) x performed (.ok ()) y)
    (hrouting : .routing ∈ stagesBehind route) :
    Selector.gate set.selector x.state.selector m.now = .ok () := by
  rcases routing_mem_behind.1 hrouting with rfl | rfl <;> cases h <;> exact gate_of_passed ‹_›

theorem selector_behind {route : Option Route} {result : Except ApiError Unit}
    (h : Course set sv m r (stagesBehind route) x performed result y) :
    y.state.selector = if route = some .health ∨ route = some .process then
      (Selector.best set.selector x.state.selector m.now
        fun _ => (sv.query x.state.outside).1).1 else x.state.selector := by
  cases route with
  | none => cases h; rfl
  | some known =>
    have hselector := selector_of_course h
    cases known <;> exact hselector

/-- Stages do each of their deeds once at most, the query first. -/
theorem rank_behind {route : Option Route} {result : Except ApiError Unit}
    (h : Course set sv m r (stagesBehind route) x performed result y) (hx : x.effects = []) :
    (y.effects.map Effect.rank).Pairwise (· < ·) := by
  have hranks : ((stagesBehind route).flatMap Stage.ranks).Sublist [0, 1] := by
    cases route with
    | none => decide
    | some known => cases known <;> decide
  have hcourse : (y.effects.map Effect.rank).Sublist [0, 1] := by
    rw [h.effects (stagesBehind_nodup route), hx]
    exact (rank_course _ h.sublist).trans hranks
  exact List.Pairwise.sublist hcourse (by decide)

/-- What has been done when a request is left to nobody. -/
structure Stray (set : Settings) (sv : Services σ) (m : Moment) (r : HttpRequest) (st : State σ)
    (route : Option Route) (y : Exchange σ) : Prop where
  admitted : (Limiter.check set.limit st.limiter r.client m.now).2 = .ok ()
  limiter : y.state.limiter = (Limiter.check set.limit st.limiter r.client m.now).1
  query : .query ∈ y.effects ↔ route = some .health ∨ route = some .process
  upload : ∀ v, .upload v ∈ y.effects ↔ route = some .process ∧ Carries r.body v
  broadcast : ∀ requests, .broadcast requests ∉ y.effects
  rank : (y.effects.map Effect.rank).Pairwise (· < ·)
  selector : y.state.selector = if route = some .health ∨ route = some .process then
    (Selector.best set.selector st.selector m.now
      fun _ => (sv.query st.outside).1).1 else st.selector
  outside : y.state.outside = y.effects.foldl sv.act st.outside

/-- **The stages are passed before the answer is that nobody handles the request.** -/
theorem stray_of_unhandled
    (h : (respond set sv m r st).1.status = 404 ∨ (respond set sv m r st).1.status = 405) :
    Stray set sv m r st (Route.ofPath? (pathOf r.target)) (respond set sv m r st).2 := by
  generalize hroute : Route.ofPath? (pathOf r.target) = route
  obtain ⟨-, x, hcourse, heq⟩ := respond_unhandled hroute h
  rw [heq]
  obtain ⟨hstate, heffects, hok, -⟩ := perform_rateLimit set sv m r (.begin st)
  obtain ⟨start, hlimit, hcourse⟩ := hcourse.tail_of_ok
  rw [hlimit] at hstate heffects hok
  have hstart : start.state =
      { st with limiter := (Limiter.check set.limit st.limiter r.client m.now).1 } := hstate
  have hselector : start.state.selector = st.selector := by rw [hstart]
  have houtside : start.state.outside = st.outside := by rw [hstart]
  refine ⟨hok.1 rfl, ?_, ?_, fun v => ?_,
    hcourse.broadcast_not_mem (stagesBehind_nodup route) heffects, rank_behind hcourse heffects,
    ?_, hcourse.outside (by rw [heffects, houtside]; rfl)⟩
  · rw [hcourse.limiter (rateLimit_not_mem_behind route), hstart]
  · rw [hcourse.query_mem (stagesBehind_nodup route) heffects, ← routing_mem_behind]
    exact and_iff_left_of_imp (gate_of_course hcourse)
  · rw [hcourse.upload_mem (stagesBehind_nodup route) heffects]
    exact and_congr_left' contentRouting_mem_behind
  · rw [selector_behind hcourse, hselector, houtside]

/-- **What a request costs and does that no handler takes.** It takes a place in its client's
window, as every request does that is not refused. But the stages of its route have been passed:
a request for `/api/health` or `/api/process` with another method has the selector asked, and for
`/api/process` the payload of its body is stored. Only on other paths, known or not, nothing is
done. -/
theorem unhandled_spec (set : Settings) (sv : Services σ) (m : Moment) (r : HttpRequest)
    (st : State σ)
    (h : (respond set sv m r st).1.status = 404 ∨ (respond set sv m r st).1.status = 405) :
    let check := Limiter.check set.limit st.limiter r.client m.now
    let choice := Selector.best set.selector st.selector m.now
      fun _ => (sv.query st.outside).1
    let route := Route.ofPath? (pathOf r.target)
    let a := (respond set sv m r st).1
    let y := (respond set sv m r st).2
    (a.status = 404 ↔ route = none) ∧
    (∀ known, route = some known → r.method ∉ known.methods) ∧
    check.2 = .ok () ∧ y.state.limiter = check.1 ∧
    (∀ c ≠ r.client, y.state.limiter.find? c = st.limiter.find? c) ∧
    (.query ∈ y.effects ↔ route = some .health ∨ route = some .process) ∧
    (∀ v, .upload v ∈ y.effects ↔ route = some .process ∧ Carries r.body v) ∧
    (∀ requests, .broadcast requests ∉ y.effects) ∧
    (y.effects.map Effect.rank).Pairwise (· < ·) ∧
    y.state.selector =
      (if route = some .health ∨ route = some .process then choice.1 else st.selector) ∧
    y.state.outside = y.effects.foldl sv.act st.outside ∧
    (¬ (route = some .health ∨ route = some .process) →
      y.effects = [] ∧ y.state.outside = st.outside) := by
  intro check choice route a y
  have hy : Stray set sv m r st route y := stray_of_unhandled h
  obtain ⟨hmethod, x, -, heq⟩ := respond_unhandled rfl h
  have ha : a = frame r false (unhandled route) := congrArg Prod.fst heq
  refine ⟨?_, hmethod, hy.admitted, hy.limiter, fun c hc => ?_, hy.query, hy.upload, hy.broadcast,
    hy.rank, hy.selector, hy.outside, fun hother => ?_⟩
  · rw [ha]
    cases route <;> simp [frame, unhandled, Answer.empty]
  · rw [hy.limiter]
    exact Limiter.find?_check_of_ne hc
  · have hnone : y.effects = [] := by
      refine List.eq_nil_iff_forall_not_mem.2 fun effect hmem => ?_
      cases effect with
      | query => exact hother (hy.query.1 hmem)
      | upload v => exact hother (.inr ((hy.upload v).1 hmem).1)
      | broadcast requests => exact hy.broadcast requests hmem
    exact ⟨hnone, by rw [hy.outside, hnone]; rfl⟩

/-- A node that can route requests and store payloads. -/
def routedNode : Services Unit where
  query _ := (⟨0, .ok "http://rpc:8545"⟩, ())
  upload _ _ := (.ok "name", ())
  peers _ := []
  ask _ _ _ := ⟨none, .error .closed⟩

/-- A payload that is put on a path. -/
def putting (path : String) : HttpRequest :=
  ⟨"PUT", path, [], Utf8.encode "\x7b\"data\":1\x7d", .v4 [127, 0, 0, 1]⟩

/-- What comes of it. -/
def put (path : String) : HttpResponse × Exchange Unit :=
  respond ⟨⟨1, second⟩, ⟨"", 1, second⟩, false, ⟨⟨1, .zero⟩, second, second⟩⟩ routedNode
    ⟨0, 0, "id"⟩ (putting path) ⟨.empty, .fresh, ()⟩

/-- On an unknown path nothing is done. -/
theorem unhandled_spec_unknown :
    ((put "/api/unknown").1.status = 404 ∨ (put "/api/unknown").1.status = 405) ∧
      (put "/api/unknown").2.effects = [] := by
  have hstatus : (put "/api/unknown").1.status = 404 ∨ (put "/api/unknown").1.status = 405 :=
    .inl (by decide +kernel)
  have hroute : Route.ofPath? (pathOf (putting "/api/unknown").target) = none := by decide +kernel
  have hspec := unhandled_spec _ routedNode ⟨0, 0, "id"⟩ (putting "/api/unknown") _ hstatus
  obtain ⟨-, -, -, -, -, -, -, -, -, -, -, hnothing⟩ := hspec
  exact ⟨hstatus, (hnothing (by rw [hroute]; decide)).1⟩

/-- **A payload is stored for a request that is answered with 405**, and the registry is asked. -/
theorem stored_unhandled :
    (put "/api/process").1.status = 405 ∧ .query ∈ (put "/api/process").2.effects ∧
      .upload (.integer 1) ∈ (put "/api/process").2.effects ∧
        (put "/api/process").2.state.selector ≠ .fresh := by
  have hroute : Route.ofPath? (pathOf (putting "/api/process").target) = some .process := by
    decide +kernel
  have hstatus : (put "/api/process").1.status = 405 := by decide +kernel
  have hselector : (put "/api/process").2.state.selector ≠ .fresh := by decide +kernel
  have hread : Json.read (putting "/api/process").body = .ok (.ofMembers [("data", .integer 1)]) :=
    rfl
  rw [Json.ofMembers_sorted (List.pairwise_singleton _ _)] at hread
  have hcarries : Carries (putting "/api/process").body (.integer 1) :=
    ⟨by decide +kernel, _, hread, rfl, rfl⟩
  have hstray := stray_of_unhandled (.inr hstatus)
  rw [hroute] at hstray
  exact ⟨hstatus, hstray.query.2 (.inr rfl), (hstray.upload _).2 ⟨rfl, hcarries⟩, hselector⟩

end Quorum.Api
