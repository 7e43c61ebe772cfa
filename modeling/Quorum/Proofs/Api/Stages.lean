import Mathlib
import Quorum.Api.Pipeline
import Quorum.Proofs.Limiter.Check

/-!
# The stages that a request goes through

`Course` says which stages of a list are performed: all up to and with the first that fails. The
stages of a request do so (`performAll_course`). What a stage does outside of the node is said by
`Stage.deeds`, and every stage does no more than that: the effects of a course are the deeds of
its stages (`Course.effects`), the outside is what its effects made of it (`Course.outside`), the
rate limit is the business of its own stage alone, and so is the choice of an endpoint.
-/

namespace Quorum.Api

variable {σ : Type}

/-- What an effect does to the outside. -/
def Services.act (sv : Services σ) (outside : σ) : Effect → σ
  | .query => (sv.query outside).2
  | .upload v => (sv.upload v outside).2
  | .broadcast _ => outside

/-- The body is small enough and JSON, and its member `data` is `v`, which counts as present. -/
def Carries (body : Bytes) (v : Json) : Prop :=
  body.length ≤ payloadLimit ∧
    ∃ document, Json.read body = .ok document ∧ document.member? "data" = some v ∧
      isPresent v = true

/-- The codes that stages behind the rate limit, and votes, fail with. -/
def failureCodes : List Nat := [400, 409, 500, 502, 503]

/-- What a stage does outside of the node, when it is performed by a node whose selector is as
given. -/
def Stage.deeds (set : Settings) (m : Moment) (r : HttpRequest) (selector : Selector) :
    Stage → List Effect
  | routing =>
    match Selector.gate set.selector selector m.now with
    | .ok () => [.query]
    | .error _ => []
  | contentRouting =>
    match payload? r.body with
    | .ok (some v) => [.upload v]
    | _ => []
  | _ => []

section

variable (set : Settings) (sv : Services σ) (m : Moment) (r : HttpRequest)

/-- From `x` on, the stages `performed` are performed, the last of them fails or all are passed;
so the request ends. -/
inductive Course : List Stage → Exchange σ → List Stage → Except ApiError Unit → Exchange σ → Prop
    where
  | done (x : Exchange σ) : Course [] x [] (.ok ()) x
  | failed {s : Stage} {rest : List Stage} {x y : Exchange σ} {e : ApiError}
      (h : s.perform set sv m r x = (.error e, y)) : Course (s :: rest) x [s] (.error e) y
  | passed {s : Stage} {rest performed : List Stage} {x y z : Exchange σ}
      {result : Except ApiError Unit} (h : s.perform set sv m r x = (.ok (), y))
      (hrest : Course rest y performed result z) : Course (s :: rest) x (s :: performed) result z

end

variable {set : Settings} {sv : Services σ} {m : Moment} {r : HttpRequest} {s : Stage}
  {stages performed : List Stage} {x y : Exchange σ} {result : Except ApiError Unit} {e : ApiError}
  {v : Json}

/-- **Requests take their course.** -/
theorem performAll_course (set : Settings) (sv : Services σ) (m : Moment) (r : HttpRequest)
    (stages : List Stage) (x : Exchange σ) :
    ∃ performed, Course set sv m r stages x performed (Stage.performAll set sv m r stages x).1
      (Stage.performAll set sv m r stages x).2 := by
  induction stages generalizing x with
  | nil => exact ⟨[], .done x⟩
  | cons s rest ih =>
    unfold Stage.performAll
    split
    · rename_i e y hs
      exact ⟨[s], .failed hs⟩
    · rename_i y hs
      obtain ⟨performed, hrest⟩ := ih y
      exact ⟨s :: performed, .passed hs hrest⟩

/-! ## The payload -/

theorem payload?_eq_some_iff {body : Bytes} : payload? body = .ok (some v) ↔ Carries body v := by
  unfold payload? Carries
  by_cases hlong : payloadLimit < body.length
  · rw [if_pos hlong]
    simp [hlong]
  · rw [if_neg hlong, and_iff_right (Nat.le_of_not_lt hlong)]
    cases body with
    | nil =>
      have hread : Json.read [] = .error (.before .endInValue []) := rfl
      simp [hread]
    | cons b body =>
      rw [if_neg (by simp)]
      cases hread : Json.read (b :: body) with
      | error f => simp
      | ok document => simp [Option.filter_eq_some_iff]

/-! ## One stage -/

theorem perform_rateLimit (set : Settings) (sv : Services σ) (m : Moment) (r : HttpRequest)
    (x : Exchange σ) :
    (Stage.perform set sv m r x .rateLimit).2.state =
        { x.state with limiter := (Limiter.check set.limit x.state.limiter r.client m.now).1 } ∧
      (Stage.perform set sv m r x .rateLimit).2.effects = x.effects ∧
      ((Stage.perform set sv m r x .rateLimit).1 = .ok () ↔
        (Limiter.check set.limit x.state.limiter r.client m.now).2 = .ok ()) ∧
      ∀ e, (Stage.perform set sv m r x .rateLimit).1 = .error e → e.status = 429 := by
  unfold Stage.perform
  dsimp only
  split
  · rename_i h
    exact ⟨rfl, rfl, by simp [h], nofun⟩
  · rename_i h
    refine ⟨rfl, rfl, by simp [h], ?_⟩
    rintro e ⟨⟩
    rfl

theorem perform_routing (set : Settings) (sv : Services σ) (m : Moment) (r : HttpRequest)
    (x : Exchange σ) :
    let choice := Selector.best set.selector x.state.selector m.now
      fun _ => (sv.query x.state.outside).1
    (Stage.perform set sv m r x .routing).2.state.selector = choice.1 ∧
      ((Stage.perform set sv m r x .routing).1 = .ok () ↔ ∃ url, choice.2 = .ok url) := by
  unfold Stage.perform Selector.best
  dsimp only
  cases Selector.gate set.selector x.state.selector m.now with
  | error e => simp [Exchange.say]
  | ok u =>
    dsimp only
    generalize Selector.settle set.selector x.state.selector
      (m.now + (sv.query x.state.outside).1.wait) (sv.query x.state.outside).1.answer = choice
    obtain ⟨selector, result⟩ := choice
    cases result with
    | ok url => simp [Exchange.say]
    | error e => simp [Exchange.say]

theorem perform_quorumCheck (set : Settings) (sv : Services σ) (m : Moment) (r : HttpRequest)
    (x : Exchange σ) :
    (Stage.perform set sv m r x .quorumCheck).2 = x ∧
      ((Stage.perform set sv m r x .quorumCheck).1 = .ok () ↔ set.enforceQuorum = false ∨
        set.broadcast.policy.minPeers ≤ (sv.peers x.state.outside).length) := by
  rw [← Policy.allow_eq_ok_iff]
  unfold Stage.perform
  dsimp only
  split
  · rename_i henforce
    exact ⟨rfl, iff_of_true rfl (.inl (by simpa using henforce))⟩
  · rename_i henforce
    split
    · rename_i hallow
      simp [hallow]
    · rename_i e he
      simpa [he] using henforce

/-- What holds of every stage: it leaves alone what is not its business, and all that it does
outside is its deeds. -/
structure Performed (set : Settings) (sv : Services σ) (m : Moment) (r : HttpRequest) (s : Stage)
    (x : Exchange σ) (result : Except ApiError Unit) (y : Exchange σ) : Prop where
  limiter : s ≠ .rateLimit → y.state.limiter = x.state.limiter
  selector : s ≠ .routing → y.state.selector = x.state.selector
  effects : y.effects = x.effects ++ s.deeds set m r x.state.selector
  outside : y.state.outside = (s.deeds set m r x.state.selector).foldl sv.act x.state.outside
  status : s ≠ .rateLimit → ∀ e, result = .error e → e.status ∈ failureCodes

/-- A stage that neither changes the state nor does anything outside. -/
theorem Performed.inert (hx : y.state = x.state ∧ y.effects = x.effects)
    (hdeeds : s.deeds set m r x.state.selector = [])
    (hstatus : ∀ e, result = .error e → e.status ∈ failureCodes) :
    Performed set sv m r s x result y where
  limiter := fun _ => by rw [hx.1]
  selector := fun _ => by rw [hx.1]
  effects := by rw [hx.2, hdeeds, List.append_nil]
  outside := by rw [hx.1, hdeeds]; rfl
  status := fun _ => hstatus

theorem status_mem (h : e.code ∈ failureCodes) : e.status ∈ failureCodes := by
  have hcode : e.status = e.code := by
    simp only [failureCodes, List.mem_cons, List.not_mem_nil, or_false] at h
    rcases h with h | h | h | h | h <;> simp [ApiError.status, h]
  rwa [hcode]

theorem code_ofEndpoint_mem (e : EndpointError) : (ApiError.ofEndpoint e).code ∈ failureCodes := by
  cases e <;> simp [ApiError.ofEndpoint, ApiError.unavailable, ApiError.badGateway, failureCodes]

theorem code_ofVote_mem (e : VoteError) : (ApiError.ofVote e).code ∈ failureCodes := by
  cases e <;> simp [ApiError.ofVote, ApiError.unavailable, ApiError.conflict, failureCodes]

theorem code_payload_mem {body : Bytes} (h : payload? body = .error e) : e.code ∈ failureCodes := by
  unfold payload? at h
  split at h
  · cases h
    decide
  · split at h
    · cases h
    · split at h
      · cases h
        exact (by decide : 400 ∈ failureCodes)
      · cases h

theorem performed_routing (x : Exchange σ) :
    Performed set sv m r .routing x (Stage.perform set sv m r x .routing).1
      (Stage.perform set sv m r x .routing).2 := by
  unfold Stage.perform
  dsimp only
  split
  · rename_i e hgate
    refine .inert ⟨rfl, rfl⟩ (by simp [Stage.deeds, hgate]) ?_
    rintro e' ⟨⟩
    exact status_mem (code_ofEndpoint_mem e)
  · rename_i hgate
    have hdeeds : Stage.deeds set m r x.state.selector .routing = [.query] := by
      simp [Stage.deeds, hgate]
    split
    · exact ⟨fun _ => rfl, fun h => absurd rfl h, by rw [hdeeds]; rfl, by rw [hdeeds]; rfl, nofun⟩
    · rename_i e he
      refine ⟨fun _ => rfl, fun h => absurd rfl h, by rw [hdeeds]; rfl, by rw [hdeeds]; rfl, ?_⟩
      rintro - e' ⟨⟩
      exact status_mem (code_ofEndpoint_mem e)

theorem performed_contentRouting (x : Exchange σ) :
    Performed set sv m r .contentRouting x (Stage.perform set sv m r x .contentRouting).1
      (Stage.perform set sv m r x .contentRouting).2 := by
  unfold Stage.perform
  dsimp only
  split
  · rename_i e hbody
    refine .inert ⟨rfl, rfl⟩ (by simp [Stage.deeds, hbody]) ?_
    rintro e' ⟨⟩
    exact status_mem (code_payload_mem hbody)
  · rename_i hbody
    exact .inert ⟨rfl, rfl⟩ (by simp [Stage.deeds, hbody]) nofun
  · rename_i v hbody
    have hdeeds : Stage.deeds set m r x.state.selector .contentRouting = [.upload v] := by
      simp [Stage.deeds, hbody]
    split
    · exact ⟨fun _ => rfl, fun _ => rfl, by rw [hdeeds]; rfl, by rw [hdeeds]; rfl, nofun⟩
    · rename_i e he
      refine ⟨fun _ => rfl, fun _ => rfl, by rw [hdeeds]; rfl, by rw [hdeeds]; rfl, ?_⟩
      rintro - e' ⟨⟩
      exact status_mem (by simp [ApiError.ofStore, ApiError.unavailable, failureCodes])

theorem performed_providerBinding (x : Exchange σ) :
    Performed set sv m r .providerBinding x (Stage.perform set sv m r x .providerBinding).1
      (Stage.perform set sv m r x .providerBinding).2 := by
  unfold Stage.perform
  dsimp only
  split
  · refine .inert ⟨rfl, rfl⟩ rfl ?_
    rintro e' ⟨⟩
    exact status_mem (by decide)
  · split
    · exact .inert ⟨rfl, rfl⟩ rfl nofun
    · rename_i e he
      refine .inert ⟨rfl, rfl⟩ rfl ?_
      rintro e' ⟨⟩
      exact status_mem (code_ofEndpoint_mem e)

theorem performed_quorumCheck (x : Exchange σ) :
    Performed set sv m r .quorumCheck x (Stage.perform set sv m r x .quorumCheck).1
      (Stage.perform set sv m r x .quorumCheck).2 := by
  unfold Stage.perform
  dsimp only
  split
  · exact .inert ⟨rfl, rfl⟩ rfl nofun
  · split
    · exact .inert ⟨rfl, rfl⟩ rfl nofun
    · rename_i e he
      refine .inert ⟨rfl, rfl⟩ rfl ?_
      rintro e' ⟨⟩
      exact status_mem (code_ofVote_mem e)

/-- **Every stage minds its own business.** -/
theorem performed_of_eq (h : s.perform set sv m r x = (result, y)) :
    Performed set sv m r s x result y := by
  have hperformed : Performed set sv m r s x (s.perform set sv m r x).1
      (s.perform set sv m r x).2 := by
    cases s with
    | rateLimit =>
      obtain ⟨hstate, heffects, -, -⟩ := perform_rateLimit set sv m r x
      exact ⟨fun h => absurd rfl h, fun _ => by rw [hstate],
        by rw [heffects]; exact (List.append_nil _).symm, by rw [hstate]; rfl,
        fun h => absurd rfl h⟩
    | routing => exact performed_routing x
    | contentRouting => exact performed_contentRouting x
    | providerBinding => exact performed_providerBinding x
    | quorumCheck => exact performed_quorumCheck x
  rwa [h] at hperformed

theorem query_mem_deeds {selector : Selector} : .query ∈ s.deeds set m r selector ↔
    s = .routing ∧ Selector.gate set.selector selector m.now = .ok () := by
  cases s with
  | routing => simp only [Stage.deeds]; split <;> simp_all
  | contentRouting => simp only [Stage.deeds]; split <;> simp
  | _ => simp [Stage.deeds]

theorem upload_mem_deeds {selector : Selector} : .upload v ∈ s.deeds set m r selector ↔
    s = .contentRouting ∧ Carries r.body v := by
  rw [← payload?_eq_some_iff]
  cases s with
  | routing => simp only [Stage.deeds]; split <;> simp
  | contentRouting =>
    simp only [Stage.deeds]
    split
    · rename_i v' hv'
      simp [hv', eq_comm]
    · rename_i hnone
      exact iff_of_false List.not_mem_nil fun h => hnone v h.2
  | _ => simp [Stage.deeds]

theorem broadcast_not_mem_deeds {selector : Selector} (requests : List (PeerId × Request)) :
    .broadcast requests ∉ s.deeds set m r selector := by
  cases s with
  | routing => simp only [Stage.deeds]; split <;> simp
  | contentRouting => simp only [Stage.deeds]; split <;> simp
  | _ => simp [Stage.deeds]

/-! ## A course -/

theorem Course.sublist (h : Course set sv m r stages x performed result y) :
    performed.Sublist stages := by
  induction h with
  | done => exact .slnil
  | failed => exact (List.nil_sublist _).cons_cons _
  | passed _ _ ih => exact ih.cons_cons _

theorem Course.limiter (h : Course set sv m r stages x performed result y)
    (hout : .rateLimit ∉ stages) : y.state.limiter = x.state.limiter := by
  induction h with
  | done => rfl
  | failed h => exact (performed_of_eq h).limiter fun heq => hout (heq ▸ List.mem_cons_self)
  | passed h _ ih =>
    have hs := (performed_of_eq h).limiter fun heq => hout (heq ▸ List.mem_cons_self)
    exact (ih fun hmem => hout (List.mem_cons_of_mem _ hmem)).trans hs

theorem Course.selector (h : Course set sv m r stages x performed result y)
    (hout : .routing ∉ stages) : y.state.selector = x.state.selector := by
  induction h with
  | done => rfl
  | failed h => exact (performed_of_eq h).selector fun heq => hout (heq ▸ List.mem_cons_self)
  | passed h _ ih =>
    have hs := (performed_of_eq h).selector fun heq => hout (heq ▸ List.mem_cons_self)
    exact (ih fun hmem => hout (List.mem_cons_of_mem _ hmem)).trans hs

theorem Course.status (h : Course set sv m r stages x performed result y)
    (hout : .rateLimit ∉ stages) : ∀ e, result = .error e → e.status ∈ failureCodes := by
  induction h with
  | done => nofun
  | failed h =>
    rintro e ⟨⟩
    exact (performed_of_eq h).status (fun heq => hout (heq ▸ List.mem_cons_self)) _ rfl
  | passed _ _ ih => exact ih fun hmem => hout (List.mem_cons_of_mem _ hmem)

/-- The selector is what routing looks at, and routing is performed once at most; so the deeds of
all stages can be told from the start. -/
theorem Course.effects (h : Course set sv m r stages x performed result y) (hn : stages.Nodup) :
    y.effects = x.effects ++ performed.flatMap (Stage.deeds set m r x.state.selector) := by
  induction h with
  | done => simp
  | failed h => simp [(performed_of_eq h).effects]
  | @passed s rest performed x y z result h hrest ih =>
    obtain ⟨hs, hn⟩ := List.nodup_cons.1 hn
    have hsame : performed.flatMap (Stage.deeds set m r y.state.selector) =
        performed.flatMap (Stage.deeds set m r x.state.selector) := by
      by_cases hrouting : s = .routing
      · subst hrouting
        refine List.flatMap_congr fun s' hs' => ?_
        cases s' with
        | routing => exact absurd (hrest.sublist.subset hs') hs
        | _ => rfl
      · rw [(performed_of_eq h).selector hrouting]
    rw [ih hn, (performed_of_eq h).effects, hsame, List.flatMap_cons, List.append_assoc]

theorem Course.outside {start : σ} (h : Course set sv m r stages x performed result y)
    (hx : x.state.outside = x.effects.foldl sv.act start) :
    y.state.outside = y.effects.foldl sv.act start := by
  induction h with
  | done => exact hx
  | failed h =>
    rw [(performed_of_eq h).outside, (performed_of_eq h).effects, List.foldl_append, hx]
  | passed h _ ih =>
    refine ih ?_
    rw [(performed_of_eq h).outside, (performed_of_eq h).effects, List.foldl_append, hx]

theorem Course.query_mem (h : Course set sv m r stages x performed result y) (hn : stages.Nodup)
    (hx : x.effects = []) : .query ∈ y.effects ↔
      .routing ∈ performed ∧ Selector.gate set.selector x.state.selector m.now = .ok () := by
  simp only [h.effects hn, hx, List.nil_append, List.mem_flatMap, query_mem_deeds]
  exact ⟨fun ⟨_, hs, heq, hgate⟩ => ⟨heq ▸ hs, hgate⟩, fun ⟨hs, hgate⟩ => ⟨_, hs, rfl, hgate⟩⟩

theorem Course.upload_mem (h : Course set sv m r stages x performed result y) (hn : stages.Nodup)
    (hx : x.effects = []) :
    .upload v ∈ y.effects ↔ .contentRouting ∈ performed ∧ Carries r.body v := by
  simp only [h.effects hn, hx, List.nil_append, List.mem_flatMap, upload_mem_deeds]
  exact ⟨fun ⟨_, hs, heq, hv⟩ => ⟨heq ▸ hs, hv⟩, fun ⟨hs, hv⟩ => ⟨_, hs, rfl, hv⟩⟩

theorem Course.broadcast_not_mem (h : Course set sv m r stages x performed result y)
    (hn : stages.Nodup) (hx : x.effects = []) (requests : List (PeerId × Request)) :
    .broadcast requests ∉ y.effects := by
  simp only [h.effects hn, hx, List.nil_append, List.mem_flatMap]
  exact fun ⟨_, _, hmem⟩ => broadcast_not_mem_deeds requests hmem

end Quorum.Api
