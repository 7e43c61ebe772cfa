import Mathlib
import Quorum.Api.Router
import Quorum.Proofs.Api.Stages

/-!
# The way of a request

A request for a route takes the course of the route's stages, and ends with the error of the
stage that failed or with what the handler says (`respond_eq`). From there `respond_spec` tells
what every request costs its client, and exactly when the selector is asked, a payload is stored
or peers are sent a request.
-/

namespace Quorum.Api

variable {σ : Type}

/-- The stages of a route in their order. -/
def Route.order : Route → List Stage
  | process => [.rateLimit, .routing, .contentRouting, .providerBinding, .quorumCheck]
  | health => [.rateLimit, .routing]
  | inference => [.rateLimit, .quorumCheck]
  | peers => [.rateLimit]

/-- How a request for the route ends after the course of its stages. -/
def conclude (set : Settings) (sv : Services σ) (m : Moment) (r : HttpRequest) (route : Route)
    (result : Except ApiError Unit) (x : Exchange σ) : HttpResponse × Exchange σ :=
  match result with
  | .error e => (frame r false (.ofError e), x.say [e.log])
  | .ok () =>
    (frame r false (route.handle set sv m r x).1, (route.handle set sv m r x).2)

/-- Effects of one request are of increasing rank. -/
def Effect.rank : Effect → Nat
  | .query => 0
  | .upload _ => 1
  | .broadcast _ => 2

/-- What the handler of a route does outside of the node. -/
def Route.deeds (set : Settings) (sv : Services σ) (m : Moment) (r : HttpRequest) (outside : σ) :
    Route → List Effect
  | inference =>
    match InferenceBody.ofRequest r, set.broadcast.policy.allow (sv.peers outside).length with
    | .ok body, .ok () =>
      if (sv.peers outside).isEmpty then []
      else [.broadcast ((sv.peers outside).map fun p => (p, ⟨m.requestId, body.model, body.input⟩))]
    | _, _ => []
  | _ => []

/-- The codes of refused bodies. -/
def refusalCodes : List Nat := [400, 413, 415, 422]

/-- The stages behind the rate limit for a request that may be for no route. -/
def stagesBehind (route : Option Route) : List Stage := (route.map Route.stages).getD []

/-- How a request ends once its stages have been performed. -/
def ending (set : Settings) (sv : Services σ) (m : Moment) (r : HttpRequest)
    (route : Option Route) : Except ApiError Unit × Exchange σ → Answer × Exchange σ
  | (.error e, x) => (.ofError e, x.say [e.log])
  | (.ok (), x) =>
    match route with
    | some known =>
      if known.methods.contains r.method then known.handle set sv m r x
      else (unhandled (some known), x)
    | none => (unhandled none, x)

variable {set : Settings} {sv : Services σ} {m : Moment} {r : HttpRequest} {st : State σ}
  {route : Route} {s : Stage} {stages performed : List Stage} {x y : Exchange σ}
  {result : Except ApiError Unit} {e : ApiError} {v : Json}

/-! ## The handlers -/

theorem order_eq (route : Route) : route.order = .rateLimit :: route.stages := by
  cases route <;> rfl

theorem refusal_of_ofRequest {a : Answer} (h : InferenceBody.ofRequest r = .error a) :
    a.mediaType = some "text/plain; charset=utf-8" ∧ a.status ∈ refusalCodes := by
  unfold InferenceBody.ofRequest at h
  split at h
  · cases h
    exact ⟨rfl, (by decide : 415 ∈ refusalCodes)⟩
  · split at h
    · cases h
      exact ⟨rfl, (by decide : 413 ∈ refusalCodes)⟩
    · split at h
      · cases h
        unfold InferenceBody.refuse
        split
        · exact ⟨rfl, (by decide : 422 ∈ refusalCodes)⟩
        · exact ⟨rfl, (by decide : 400 ∈ refusalCodes)⟩
      · cases h

/-- A handler refuses a body that it cannot read, and otherwise answers well or tells of a vote
that failed. -/
theorem handle_cases (set : Settings) (sv : Services σ) (m : Moment) (r : HttpRequest)
    (route : Route) (x : Exchange σ) :
    let a := (route.handle set sv m r x).1
    (route = .inference ∧ InferenceBody.ofRequest r = .error a) ∨
      (route = .inference → ∀ b, InferenceBody.ofRequest r ≠ .error b) ∧
        (a.status = 200 ∨ ∃ e, a = .ofError e ∧ e.status ∈ failureCodes) := by
  cases route with
  | inference =>
    unfold Route.handle broadcastInference
    dsimp only
    split
    · rename_i a ha
      exact .inl ⟨rfl, ha⟩
    · rename_i body hbody
      refine .inr ⟨fun _ b => by rw [hbody]; nofun, ?_⟩
      dsimp only
      generalize Broadcast.Run.result _ = vote
      cases vote with
      | ok o => exact .inl rfl
      | error e => exact .inr ⟨_, rfl, status_mem (code_ofVote_mem e)⟩
  | _ => exact .inr ⟨nofun, .inl rfl⟩

theorem status_handle_mem (route : Route) (x : Exchange σ) :
    let a := (route.handle set sv m r x).1
    a.status = 200 ∨ a.status ∈ failureCodes ∨ a.status ∈ refusalCodes := by
  rcases handle_cases set sv m r route x with ⟨-, hbody⟩ | ⟨-, hwell | ⟨e, heq, hcode⟩⟩
  · exact .inr (.inr (refusal_of_ofRequest hbody).2)
  · exact .inl hwell
  · exact .inr (.inl (heq ▸ hcode))

theorem state_handle (route : Route) (x : Exchange σ) :
    (route.handle set sv m r x).2.state = x.state := by
  cases route with
  | inference =>
    unfold Route.handle broadcastInference
    dsimp only
    split <;> rfl
  | _ => rfl

theorem effects_handle (route : Route) (x : Exchange σ) :
    (route.handle set sv m r x).2.effects =
      x.effects ++ route.deeds set sv m r x.state.outside := by
  cases route with
  | inference =>
    unfold Route.handle broadcastInference Route.deeds Broadcast.run
    dsimp only
    split
    · rename_i a ha
      simp [ha]
    · rename_i body hbody
      cases hallow : set.broadcast.policy.allow (sv.peers x.state.outside).length with
      | error e => simp [hbody, Exchange.say]
      | ok u =>
        simp only [hbody, Exchange.say, List.isEmpty_map]
        split <;> simp
  | _ => simp [Route.handle, Route.deeds]

theorem broadcast_mem_handle {outside : σ} {requests : List (PeerId × Request)} :
    .broadcast requests ∈ route.deeds set sv m r outside ↔
      route = .inference ∧ set.broadcast.policy.minPeers ≤ (sv.peers outside).length ∧
        sv.peers outside ≠ [] ∧ ∃ body, InferenceBody.ofRequest r = .ok body ∧
          requests =
            (sv.peers outside).map fun p => (p, ⟨m.requestId, body.model, body.input⟩) := by
  rw [← Policy.allow_eq_ok_iff]
  cases route with
  | inference =>
    unfold Route.deeds
    cases hbody : InferenceBody.ofRequest r with
    | error a => simp
    | ok body =>
      cases hallow : set.broadcast.policy.allow (sv.peers outside).length with
      | error e => simp
      | ok u =>
        cases hpeers : sv.peers outside with
        | nil => simp
        | cons p ps => simp
  | _ => simp [Route.deeds]

theorem query_not_mem_handle {outside : σ} : .query ∉ route.deeds set sv m r outside := by
  unfold Route.deeds
  split
  · split
    · split <;> simp
    · simp
  · simp

theorem upload_not_mem_handle {outside : σ} : .upload v ∉ route.deeds set sv m r outside := by
  unfold Route.deeds
  split
  · split
    · split <;> simp
    · simp
  · simp

theorem act_handle {outside : σ} :
    (route.deeds set sv m r outside).foldl sv.act outside = outside := by
  unfold Route.deeds
  split
  · split
    · split <;> rfl
    · rfl
  · rfl

/-! ## The end of a request -/

theorem respond_options (h : (r.method == "OPTIONS") = true) :
    respond set sv m r st = (frame r true (.empty 200), .begin st) := by
  unfold respond
  rw [if_pos h]

/-- Every other request comes to the stages, and ends accordingly. -/
theorem respond_ending (h : (r.method == "OPTIONS") = false) {route : Option Route}
    (hroute : Route.ofPath? (pathOf r.target) = route) :
    let last := ending set sv m r route
      (Stage.performAll set sv m r (.rateLimit :: stagesBehind route) (.begin st))
    respond set sv m r st = (frame r false last.1, last.2) := by
  subst hroute
  unfold respond
  rw [h, if_neg Bool.false_ne_true]
  rfl

theorem ending_route (hmethod : r.method ∈ route.methods) (x : Exchange σ) :
    ending set sv m r (some route) (.ok (), x) = route.handle set sv m r x :=
  if_pos (List.contains_iff_mem.2 hmethod)

theorem ending_unmatched (hmethod : r.method ∉ route.methods) (x : Exchange σ) :
    ending set sv m r (some route) (.ok (), x) = (unhandled (some route), x) :=
  if_neg (mt List.contains_iff_mem.1 hmethod)

theorem state_ending (route : Option Route) (p : Except ApiError Unit × Exchange σ) :
    (ending set sv m r route p).2.state = p.2.state := by
  obtain ⟨result, x⟩ := p
  cases result with
  | error e => rfl
  | ok _ =>
    cases route with
    | none => rfl
    | some known =>
      by_cases hmethod : r.method ∈ known.methods
      · rw [ending_route hmethod]
        exact state_handle known x
      · rw [ending_unmatched hmethod]

/-- A request for a route passes the stages, and ends accordingly. -/
theorem respond_route (set : Settings) (sv : Services σ) (m : Moment) (st : State σ)
    (hroute : Route.ofPath? (pathOf r.target) = some route)
    (hmethod : r.method ∈ route.methods) :
    respond set sv m r st = conclude set sv m r route
      (Stage.performAll set sv m r route.order (.begin st)).1
      (Stage.performAll set sv m r route.order (.begin st)).2 := by
  have hoptions : (r.method == "OPTIONS") = false := by
    rw [beq_eq_false_iff_ne]
    intro heq
    rw [heq] at hmethod
    cases route <;> exact absurd hmethod (by decide)
  have hstages : .rateLimit :: stagesBehind (some route) = route.order := (order_eq route).symm
  rw [respond_ending hoptions hroute, hstages]
  rcases Stage.performAll set sv m r route.order (.begin st) with ⟨result, x⟩
  cases result with
  | error e => rfl
  | ok _ =>
    rw [ending_route hmethod]
    rfl

/-- **A request for a route ends as the course of its stages ends.** -/
theorem respond_eq (set : Settings) (sv : Services σ) (m : Moment) (st : State σ)
    (hroute : Route.ofPath? (pathOf r.target) = some route)
    (hmethod : r.method ∈ route.methods) :
    ∃ performed result x, Course set sv m r route.order (.begin st) performed result x ∧
      respond set sv m r st = conclude set sv m r route result x := by
  obtain ⟨performed, hcourse⟩ := performAll_course set sv m r route.order (.begin st)
  exact ⟨performed, _, _, hcourse, respond_route set sv m st hroute hmethod⟩

theorem state_conclude : (conclude set sv m r route result x).2.state = x.state := by
  cases result with
  | error e => rfl
  | ok u => exact state_handle route x

theorem status_conclude_ne (h : ∀ e, result = .error e → e.status ∈ failureCodes) :
    (conclude set sv m r route result x).1.status ≠ 429 := by
  have hother {n : Nat} (hn : n = 200 ∨ n ∈ failureCodes ∨ n ∈ refusalCodes) : n ≠ 429 := by
    rintro rfl
    revert hn
    decide
  cases result with
  | error e => exact hother (.inr (.inl (h e rfl)))
  | ok u => exact hother (status_handle_mem route x)

/-! ## Behind the rate limit -/

theorem Course.head_mem (h : Course set sv m r (s :: stages) x performed result y) :
    s ∈ performed := by
  cases h with
  | failed => exact List.mem_cons_self
  | passed => exact List.mem_cons_self

theorem routing_mem_performed (h : Course set sv m r route.stages x performed result y) :
    .routing ∈ performed ↔ .routing ∈ route.order := by
  cases route with
  | process => exact iff_of_true h.head_mem (by decide)
  | health => exact iff_of_true h.head_mem (by decide)
  | inference | peers =>
    exact iff_of_false (fun hmem => absurd (h.sublist.subset hmem) (by decide)) (by decide)

theorem contentRouting_mem_performed (h : Course set sv m r route.stages x performed result y) :
    .contentRouting ∈ performed ↔ route = .process ∧
      ∃ url, (Selector.best set.selector x.state.selector m.now
        fun _ => (sv.query x.state.outside).1).2 = .ok url := by
  cases route with
  | process =>
    rw [and_iff_right rfl, ← (perform_routing set sv m r x).2]
    cases h with
    | failed h => simp [h]
    | passed h hrest => simp [h, hrest.head_mem]
  | _ =>
    refine iff_of_false (fun hmem => ?_) (by simp)
    exact absurd (h.sublist.subset hmem) (by decide)

theorem selector_of_course (h : Course set sv m r route.stages x performed result y) :
    y.state.selector = if .routing ∈ route.order then
      (Selector.best set.selector x.state.selector m.now
        fun _ => (sv.query x.state.outside).1).1 else x.state.selector := by
  have hrouting := (perform_routing set sv m r x).1
  cases route with
  | process =>
    cases h with
    | failed h => rw [h] at hrouting; exact hrouting
    | passed h hrest => rw [h] at hrouting; exact (hrest.selector (by decide)).trans hrouting
  | health =>
    cases h with
    | failed h => rw [h] at hrouting; exact hrouting
    | passed h hrest => rw [h] at hrouting; exact (hrest.selector (by decide)).trans hrouting
  | _ => exact h.selector (by decide)

/-- The ranks of what a stage may do. -/
def Stage.ranks : Stage → List Nat
  | routing => [0]
  | contentRouting => [1]
  | _ => []

theorem rank_deeds (selector : Selector) (s : Stage) :
    ((s.deeds set m r selector).map Effect.rank).Sublist s.ranks := by
  cases s with
  | routing => simp only [Stage.deeds]; split <;> simp [Stage.ranks, Effect.rank]
  | contentRouting => simp only [Stage.deeds]; split <;> simp [Stage.ranks, Effect.rank]
  | _ => exact .slnil

theorem rank_handle (outside : σ) (route : Route) :
    ((route.deeds set sv m r outside).map Effect.rank).Sublist [2] := by
  unfold Route.deeds
  split
  · split
    · split <;> simp [Effect.rank]
    · simp
  · simp

theorem rank_course (selector : Selector) (h : performed.Sublist stages) :
    ((performed.flatMap (Stage.deeds set m r selector)).map Effect.rank).Sublist
      (stages.flatMap Stage.ranks) := by
  induction h with
  | slnil => exact .slnil
  | cons s _ ih => exact ih.trans (List.sublist_append_right ..)
  | cons_cons s _ ih =>
    rw [List.flatMap_cons, List.map_append, List.flatMap_cons]
    exact (rank_deeds selector s).append ih

/-! ## What a request costs and does -/

/-- A refused request costs nothing and does nothing. -/
theorem respond_refused (sv : Services σ) (hroute : Route.ofPath? (pathOf r.target) = some route)
    (hmethod : r.method ∈ route.methods)
    (hcheck : (Limiter.check set.limit st.limiter r.client m.now).2 ≠ .ok ()) :
    (respond set sv m r st).1.status = 429 ∧ (respond set sv m r st).2.effects = [] ∧
      (respond set sv m r st).2.state =
        { st with limiter := (Limiter.check set.limit st.limiter r.client m.now).1 } := by
  obtain ⟨performed, result, x, hcourse, heq⟩ := respond_eq set sv m st hroute hmethod
  obtain ⟨hstate, heffects, hok, hstatus⟩ := perform_rateLimit set sv m r (.begin st)
  rw [order_eq] at hcourse
  rw [heq]
  cases hcourse with
  | failed h =>
    rw [h] at hstate heffects hstatus
    exact ⟨hstatus _ rfl, heffects, hstate⟩
  | passed h hrest =>
    rw [h] at hok
    exact absurd (hok.1 rfl) hcheck

/-- An admitted request goes on with the stages of its route. -/
theorem respond_admitted (sv : Services σ) (hroute : Route.ofPath? (pathOf r.target) = some route)
    (hmethod : r.method ∈ route.methods)
    (hcheck : (Limiter.check set.limit st.limiter r.client m.now).2 = .ok ()) :
    ∃ start performed result x,
      start.state = { st with limiter := (Limiter.check set.limit st.limiter r.client m.now).1 } ∧
      start.effects = [] ∧ Course set sv m r route.stages start performed result x ∧
      respond set sv m r st = conclude set sv m r route result x := by
  obtain ⟨performed, result, x, hcourse, heq⟩ := respond_eq set sv m st hroute hmethod
  obtain ⟨hstate, heffects, hok, -⟩ := perform_rateLimit set sv m r (.begin st)
  rw [order_eq] at hcourse
  cases hcourse with
  | failed h =>
    rw [h] at hok
    exact absurd (hok.2 hcheck) nofun
  | passed h hrest =>
    rw [h] at hstate heffects
    exact ⟨_, _, _, _, hstate, heffects, hrest, heq⟩

theorem stages_nodup (route : Route) : route.stages.Nodup := by
  cases route <;> decide

theorem rateLimit_not_mem (route : Route) : .rateLimit ∉ route.stages := by
  cases route <;> decide

/-- What the handler adds to the effects, if all stages are passed. -/
theorem effects_conclude : (conclude set sv m r route result x).2.effects = x.effects ++
    if result = .ok () then route.deeds set sv m r x.state.outside else [] := by
  cases result with
  | error e => exact (List.append_nil _).symm
  | ok u => exact effects_handle route x

theorem query_mem_conclude :
    .query ∈ (conclude set sv m r route result x).2.effects ↔ .query ∈ x.effects := by
  rw [effects_conclude, List.mem_append]
  refine or_iff_left ?_
  split
  · exact query_not_mem_handle
  · exact List.not_mem_nil

theorem upload_mem_conclude :
    .upload v ∈ (conclude set sv m r route result x).2.effects ↔ .upload v ∈ x.effects := by
  rw [effects_conclude, List.mem_append]
  refine or_iff_left ?_
  split
  · exact upload_not_mem_handle
  · exact List.not_mem_nil

/-- The one stage before a broadcast changes nothing, and where it fails there are too few peers
for the broadcast as well. -/
theorem broadcast_mem_conclude {requests : List (PeerId × Request)}
    (h : Course set sv m r route.stages x performed result y) (hx : x.effects = []) :
    .broadcast requests ∈ (conclude set sv m r route result y).2.effects ↔
      .broadcast requests ∈ route.deeds set sv m r x.state.outside := by
  rw [effects_conclude, List.mem_append,
    or_iff_right (h.broadcast_not_mem (stages_nodup route) hx requests)]
  cases route with
  | inference =>
    obtain ⟨hsame, hok⟩ := perform_quorumCheck set sv m r x
    cases h with
    | failed h =>
      rw [h] at hok
      rw [broadcast_mem_handle]
      simp at hok ⊢
      simp [hok]
    | passed h hrest =>
      rw [h] at hsame
      cases hrest
      rw [if_pos rfl]
      exact hsame ▸ Iff.rfl
  | _ => split <;> simp [Route.deeds]

/-- When peers are sent a request, and which one. -/
theorem broadcast_mem_respond (hroute : Route.ofPath? (pathOf r.target) = some route)
    (hmethod : r.method ∈ route.methods)
    (hcheck : (Limiter.check set.limit st.limiter r.client m.now).2 = .ok ())
    {requests : List (PeerId × Request)} :
    .broadcast requests ∈ (respond set sv m r st).2.effects ↔
      route = .inference ∧ set.broadcast.policy.minPeers ≤ (sv.peers st.outside).length ∧
        sv.peers st.outside ≠ [] ∧ ∃ body, InferenceBody.ofRequest r = .ok body ∧
          requests =
            (sv.peers st.outside).map fun p => (p, ⟨m.requestId, body.model, body.input⟩) := by
  obtain ⟨start, performed, result, x, hstart, heffects, hcourse, heq⟩ :=
    respond_admitted sv hroute hmethod hcheck
  have houtside : start.state.outside = st.outside := by rw [hstart]
  rw [heq, broadcast_mem_conclude hcourse heffects, broadcast_mem_handle, houtside]

/-- Every effect happens once at most, and they keep their order. -/
theorem rank_conclude (h : Course set sv m r route.stages x performed result y)
    (hx : x.effects = []) :
    ((conclude set sv m r route result y).2.effects.map Effect.rank).Pairwise (· < ·) := by
  have hstages : (route.stages.flatMap Stage.ranks).Sublist [0, 1] := by
    cases route <;> decide
  have hcourse : (y.effects.map Effect.rank).Sublist [0, 1] := by
    rw [h.effects (stages_nodup route), hx]
    exact (rank_course _ h.sublist).trans hstages
  have hhandler : ((if result = .ok () then route.deeds set sv m r y.state.outside else []).map
      Effect.rank).Sublist [2] := by
    split
    · exact rank_handle ..
    · exact List.nil_sublist _
  have hall := hcourse.append hhandler
  rw [effects_conclude, List.map_append]
  exact List.Pairwise.sublist hall (by decide)

theorem outside_conclude (h : Course set sv m r stages x performed result y)
    (hx : x.effects = []) : y.state.outside =
      (conclude set sv m r route result y).2.effects.foldl sv.act x.state.outside := by
  have hcourse : y.state.outside = y.effects.foldl sv.act x.state.outside :=
    h.outside (by rw [hx]; rfl)
  rw [effects_conclude, List.foldl_append, ← hcourse]
  split
  · exact act_handle.symm
  · rfl

/-- **What a request for a route comes to.** Its stages are performed in their order up to the
first that fails, whose error is the response; otherwise the handler gives it. The response is a
429 exactly when the limiter refuses, which takes no place in the client's window and touches
nothing else; any other response takes one place. The selector is asked on routed routes only, a
payload is stored exactly when a processed request is routed and carries one, and peers are sent a
request exactly when inference is asked for in a body that can be read while enough of them are
known. Each of these is done once at most, and nothing else is done outside. -/
theorem respond_spec (set : Settings) (sv : Services σ) (m : Moment) (r : HttpRequest)
    (st : State σ) (route : Route) (hroute : Route.ofPath? (pathOf r.target) = some route)
    (hmethod : r.method ∈ route.methods) :
    let check := Limiter.check set.limit st.limiter r.client m.now
    let window := Limiter.current set.limit st.limiter r.client m.now
    let choice := Selector.best set.selector st.selector m.now
      fun _ => (sv.query st.outside).1
    let peers := sv.peers st.outside
    let a := (respond set sv m r st).1
    let y := (respond set sv m r st).2
    (∃ performed result x, Course set sv m r route.order (.begin st) performed result x ∧
      x.effects = performed.flatMap (Stage.deeds set m r st.selector) ∧
      respond set sv m r st = conclude set sv m r route result x) ∧
    (a.status = 429 ↔ check.2 ≠ .ok ()) ∧
    (a.status = 429 →
      y.effects = [] ∧ y.state.selector = st.selector ∧ y.state.outside = st.outside) ∧
    y.state.limiter.find? r.client =
      some ⟨window.count + if a.status = 429 then 0 else 1, window.start⟩ ∧
    (∀ c ≠ r.client, y.state.limiter.find? c = st.limiter.find? c) ∧
    y.state.selector =
      (if a.status ≠ 429 ∧ .routing ∈ route.order then choice.1 else st.selector) ∧
    (.query ∈ y.effects ↔ a.status ≠ 429 ∧ .routing ∈ route.order ∧
      Selector.gate set.selector st.selector m.now = .ok ()) ∧
    (∀ v, .upload v ∈ y.effects ↔ route = .process ∧ a.status ≠ 429 ∧
      (∃ url, choice.2 = .ok url) ∧ Carries r.body v) ∧
    (∀ requests, .broadcast requests ∈ y.effects ↔ route = .inference ∧ a.status ≠ 429 ∧
      set.broadcast.policy.minPeers ≤ peers.length ∧ peers ≠ [] ∧
      ∃ body, InferenceBody.ofRequest r = .ok body ∧
        requests = peers.map fun p => (p, ⟨m.requestId, body.model, body.input⟩)) ∧
    (y.effects.map Effect.rank).Pairwise (· < ·) ∧
    y.state.outside = y.effects.foldl sv.act st.outside := by
  intro check window choice peers a y
  refine ⟨?_, ?_⟩
  · obtain ⟨performed, result, x, hcourse, heq⟩ := respond_eq set sv m st hroute hmethod
    have horder : route.order.Nodup := by cases route <;> decide
    exact ⟨performed, result, x, hcourse, hcourse.effects horder, heq⟩
  by_cases hcheck : check.2 = .ok ()
  · obtain ⟨start, performed, result, x, hstart, heffects, hcourse, heq⟩ :=
      respond_admitted sv hroute hmethod hcheck
    have hstatus : a.status ≠ 429 := by
      show (respond set sv m r st).1.status ≠ 429
      rw [heq]
      exact status_conclude_ne (hcourse.status (rateLimit_not_mem route))
    have hstate : y.state = x.state := by
      show (respond set sv m r st).2.state = x.state
      rw [heq, state_conclude]
    have hy : y.effects = (conclude set sv m r route result x).2.effects := by
      show (respond set sv m r st).2.effects = _
      rw [heq]
    have hlimiter : y.state.limiter = check.1 := by
      rw [hstate, hcourse.limiter (rateLimit_not_mem route), hstart]
    have hselector : start.state.selector = st.selector := by rw [hstart]
    have houtside : start.state.outside = st.outside := by rw [hstart]
    have hn := stages_nodup route
    refine ⟨iff_of_false hstatus (not_not_intro hcheck), fun h => absurd h hstatus, ?_, ?_, ?_, ?_,
      ?_, ?_, ?_, ?_⟩
    · rw [hlimiter, if_neg hstatus]
      exact Limiter.find?_check_of_ok hcheck
    · intro c hc
      rw [hlimiter]
      exact Limiter.find?_check_of_ne hc
    · rw [hstate, selector_of_course hcourse, hselector, houtside]
      simp only [hstatus, ne_eq, not_false_eq_true, true_and]
      rfl
    · rw [hy, query_mem_conclude, hcourse.query_mem hn heffects, routing_mem_performed hcourse,
        hselector, and_iff_right hstatus]
    · intro v
      rw [hy, upload_mem_conclude, hcourse.upload_mem hn heffects,
        contentRouting_mem_performed hcourse, hselector, houtside, and_iff_right hstatus, and_assoc]
    · intro requests
      rw [broadcast_mem_respond hroute hmethod hcheck, and_iff_right hstatus]
    · rw [hy]
      exact rank_conclude hcourse heffects
    · rw [hstate, hy, ← houtside]
      exact outside_conclude hcourse heffects
  · obtain ⟨hstatus, heffects, hstate⟩ := respond_refused sv hroute hmethod hcheck
    have hs : a.status = 429 := hstatus
    have hy : y.effects = [] := heffects
    have hst : y.state = { st with limiter := check.1 } := hstate
    refine ⟨iff_of_true hs hcheck, fun _ => ⟨hy, by rw [hst], by rw [hst]⟩, ?_, ?_, ?_, ?_, ?_,
      ?_, ?_, ?_⟩
    · rw [hst, if_pos hs]
      exact Limiter.find?_check_of_ne_ok hcheck
    · intro c hc
      rw [hst]
      exact Limiter.find?_check_of_ne hc
    · rw [hst]
      simp [hs]
    · simp [hy, hs]
    · simp [hy, hs]
    · simp [hy, hs]
    · simp [hy]
    · simp [hy, hst]

/-- A node whose registry is down. -/
def unrouted : Services Unit where
  query _ := (⟨0, .error (.registry "")⟩, ())
  upload _ _ := (.ok "", ())
  peers _ := []
  ask _ _ _ := ⟨none, .error .closed⟩

theorem respond_spec_unrouted :
    let r : HttpRequest :=
      ⟨"POST", "/api/process", [], Utf8.encode "\x7b\"data\":1\x7d", .v4 [127, 0, 0, 1]⟩
    let y := respond ⟨⟨1, second⟩, ⟨"", 1, second⟩, true, ⟨⟨1, .zero⟩, second, second⟩⟩ unrouted
      ⟨0, 0, "id"⟩ r ⟨.empty, .fresh, ()⟩
    Route.ofPath? (pathOf r.target) = some .process ∧ r.method ∈ Route.process.methods ∧
      y.1.status ≠ 429 ∧ .query ∈ y.2.effects ∧ ∀ v, .upload v ∉ y.2.effects := by
  intro r y
  have hroute : Route.ofPath? (pathOf r.target) = some .process := by decide +kernel
  have hmethod : r.method ∈ Route.process.methods := by decide
  obtain ⟨-, hlimit, -, -, -, -, hquery, hupload, -⟩ :=
    respond_spec ⟨⟨1, second⟩, ⟨"", 1, second⟩, true, ⟨⟨1, .zero⟩, second, second⟩⟩ unrouted
      ⟨0, 0, "id"⟩ r ⟨.empty, .fresh, ()⟩ .process hroute hmethod
  have hadmitted : y.1.status ≠ 429 := fun h => hlimit.1 h (by decide)
  refine ⟨hroute, hmethod, hadmitted, hquery.2 ⟨hadmitted, by decide, by decide⟩, fun v hv => ?_⟩
  obtain ⟨-, -, ⟨url, hurl⟩, -⟩ := (hupload v).1 hv
  cases hurl

end Quorum.Api
