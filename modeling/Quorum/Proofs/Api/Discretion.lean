import Mathlib
import Quorum.Proofs.Api.Content
import Quorum.Proofs.Api.Unhandled
import Quorum.Proofs.Selector.Outage

/-!
# What errors do not tell

Two nodes are run side by side that agree but for what should not be told: the texts of errors of
their registries and stores, how many queries failed once the budget is used up, and endpoints
that neither of them could use. `Twins` says so of two exchanges. Every stage keeps it and ends
alike in both (`perform_twins`), hence so do all stages of a request and all requests of a run
(`agree_after`). What is left to differ is the one answer that tells an endpoint without having
tried it, and no error is such an answer (`discretion_spec`).
-/

namespace Quorum.Api

variable {σ σ' : Type}

/-! ## Nodes that agree -/

/-- The same text, or two that are no URL of a provider. -/
def SameEndpoint (u v : String) : Prop :=
  u = v ∨ Registry.checkProvider u ≠ .ok () ∧ Registry.checkProvider v ≠ .ok ()

/-- Answers of registries that agree but for errors and endpoints that cannot be used. -/
inductive AnswersAlike : Selector.Answer → Selector.Answer → Prop where
  | ok {u v : String} (h : SameEndpoint u v) : AnswersAlike (.ok u) (.ok v)
  | error (e f : EndpointError) : AnswersAlike (.error e) (.error f)

/-- Answers of stores that agree but for errors. -/
inductive StoredAlike : Except StoreError String → Except StoreError String → Prop where
  | ok (hash : String) : StoredAlike (.ok hash) (.ok hash)
  | error (e f : StoreError) : StoredAlike (.error e) (.error f)

/-- What is outside of two nodes answers alike, after the same time, and goes on to do so: `R`
relates their states. -/
structure ServicesAlike (R : σ → σ' → Prop) (sv : Services σ) (sv' : Services σ') : Prop where
  query : ∀ {o o'}, R o o' → AnswersAlike (sv.query o).1.answer (sv'.query o').1.answer
  delay : ∀ {o o'}, R o o' → (sv.query o).1.delay = (sv'.query o').1.delay
  query_next : ∀ {o o'}, R o o' → R (sv.query o).2 (sv'.query o').2
  upload : ∀ {o o'}, R o o' → ∀ v, StoredAlike (sv.upload v o).1 (sv'.upload v o').1
  upload_next : ∀ {o o'}, R o o' → ∀ v, R (sv.upload v o).2 (sv'.upload v o').2
  peers : ∀ {o o'}, R o o' → sv.peers o = sv'.peers o'
  ask : ∀ {o o'}, R o o' → ∀ q p, sv.ask o q p = sv'.ask o' q p

structure SettingsAlike (set set' : Settings) : Prop where
  limit : set.limit = set'.limit
  defaultUrl : SameEndpoint set.selector.defaultUrl set'.selector.defaultUrl
  maxAttempts : set.selector.maxAttempts = set'.selector.maxAttempts
  cooldown : set.selector.cooldown = set'.selector.cooldown
  enforceQuorum : set.enforceQuorum = set'.enforceQuorum
  broadcast : set.broadcast = set'.broadcast

/-- Selectors that agree but for the last endpoint, which nobody is told, and for the count of
failures in an exhausted one. -/
structure SelectorsAlike (a b : Selector) : Prop where
  exhausted : a.exhaustedAt = b.exhaustedAt
  attempts : a.exhaustedAt = none → a.attempts = b.attempts

structure StatesAlike (R : σ → σ' → Prop) (st : State σ) (st' : State σ') : Prop where
  limiter : st.limiter = st'.limiter
  selector : SelectorsAlike st.selector st'.selector
  outside : R st.outside st'.outside

/-- An exhausted selector has used up its budget. -/
def Spent (s : Selector.Settings) (a : Selector) : Prop :=
  a.exhaustedAt ≠ none → s.maxAttempts ≤ a.attempts

/-- What the nodes keep agrees, and goes on to do so. -/
structure Agree (R : σ → σ' → Prop) (set set' : Settings) (st : State σ) (st' : State σ') : Prop
    extends StatesAlike R st st' where
  spent : Spent set.selector st.selector
  spent' : Spent set'.selector st'.selector

/-- Two exchanges of the same request on nodes that agree. -/
structure Twins (R : σ → σ' → Prop) (set set' : Settings) (x : Exchange σ) (x' : Exchange σ') :
    Prop where
  state : Agree R set set' x.state x'.state
  endpoint : Option.Rel SameEndpoint x.endpoint x'.endpoint
  contentHash : x.contentHash = x'.contentHash

/-! ## Runs -/

/-- The stage that ends a request, if one does. -/
def failedStage? (set : Settings) (sv : Services σ) (m : Moment) (r : HttpRequest) :
    List Stage → Exchange σ → Option Stage
  | [], _ => none
  | s :: rest, x =>
    match s.perform set sv m r x with
    | (.error _, _) => some s
    | (.ok (), y) => failedStage? set sv m r rest y

/-- The stage that a request fails at; `OPTIONS` comes to none. -/
def failure? (set : Settings) (sv : Services σ) (m : Moment) (r : HttpRequest) (st : State σ) :
    Option Stage :=
  if r.method == "OPTIONS" then none
  else failedStage? set sv m r (.rateLimit :: stagesBehind (Route.ofPath? (pathOf r.target)))
    (.begin st)

/-- The state after some requests. -/
def after (set : Settings) (sv : Services σ) (st : State σ)
    (requests : List (Moment × HttpRequest)) : State σ :=
  requests.foldl (fun st c => (respond set sv c.1 c.2 st).2.state) st

variable {R : σ → σ' → Prop} {set set' : Settings} {sv : Services σ} {sv' : Services σ'}
  {m : Moment} {r : HttpRequest} {st : State σ} {st' : State σ'} {x y : Exchange σ}
  {x' y' : Exchange σ'} {a b : Selector} {s : Stage} {stages : List Stage} {u v : String}

/-! ## The selector -/

theorem checkProvider_error {e : EndpointError} (h : Registry.checkProvider u = .error e) :
    ∃ text, e = .invalidProvider text := by
  unfold Registry.checkProvider at h
  split at h
  · cases h
  · cases h
    exact ⟨_, rfl⟩

/-- Whether an endpoint can be used is the same for both, and so is the endpoint if it can. -/
theorem SameEndpoint.check (h : SameEndpoint u v) :
    (∃ t t', Registry.checkProvider u = .error (.invalidProvider t) ∧
      Registry.checkProvider v = .error (.invalidProvider t')) ∨
        u = v ∧ Registry.checkProvider u = .ok () := by
  have hcases (w : String) : Registry.checkProvider w = .ok () ∨
      ∃ t, Registry.checkProvider w = .error (.invalidProvider t) := by
    cases hw : Registry.checkProvider w with
    | ok _ => exact .inl rfl
    | error e =>
      obtain ⟨t, rfl⟩ := checkProvider_error hw
      exact .inr ⟨t, rfl⟩
  rcases h with rfl | ⟨hu, hv⟩
  · rcases hcases u with hok | ⟨t, ht⟩
    · exact .inr ⟨rfl, hok⟩
    · exact .inl ⟨t, t, ht, ht⟩
  · obtain ⟨t, ht⟩ := (hcases u).resolve_left hu
    obtain ⟨t', ht'⟩ := (hcases v).resolve_left hv
    exact .inl ⟨t, t', ht, ht'⟩

theorem spent_of_reachable {s : Selector.Settings} (h : Selector.Reachable s a) : Spent s a := by
  intro hexhausted
  rcases Nat.eq_zero_or_pos s.maxAttempts with hzero | hmax
  · exact hzero ▸ Nat.zero_le _
  · exact (h.sound hmax).1 (Option.isSome_iff_ne_none.2 hexhausted)

theorem Spent.settle {s : Selector.Settings} (h : Spent s a) (now : Time)
    (answer : Selector.Answer) : Spent s (Selector.settle s a now answer).1 := by
  unfold Selector.settle
  cases answer with
  | ok url => exact fun hne => absurd rfl hne
  | error e =>
    dsimp only
    split
    · exact fun _ => ‹_›
    · exact fun hne => (h hne).trans (Nat.le_succ _)

/-- The gates of selectors that agree are open together. -/
theorem SelectorsAlike.gate (hset : SettingsAlike set set') (h : SelectorsAlike a b) (now : Time) :
    (Selector.gate set.selector a now = .ok () ∧ Selector.gate set'.selector b now = .ok ()) ∨
      ∃ j k, Selector.gate set.selector a now = .error (.exhausted j) ∧
        Selector.gate set'.selector b now = .error (.exhausted k) := by
  unfold Selector.gate
  rw [← h.exhausted, ← hset.cooldown]
  cases a.exhaustedAt with
  | none => exact .inl ⟨rfl, rfl⟩
  | some since =>
    dsimp only
    split
    · exact .inr ⟨_, _, rfl, rfl⟩
    · exact .inl ⟨rfl, rfl⟩

/-- Results of two selectors: endpoints that agree, or that there is none. -/
inductive ChoicesAlike : Selector.Answer → Selector.Answer → Prop where
  | ok {u v : String} (h : SameEndpoint u v) : ChoicesAlike (.ok u) (.ok v)
  | exhausted (j k : Nat) : ChoicesAlike (.error (.exhausted j)) (.error (.exhausted k))

/-- **Selectors that agree take alike answers to alike results.** With the budget used up it makes
no difference how often a query has failed. -/
theorem SelectorsAlike.settle (hset : SettingsAlike set set') (h : SelectorsAlike a b)
    (ha : Spent set.selector a) (hb : Spent set'.selector b) (now : Time)
    {answer answer' : Selector.Answer} (hanswer : AnswersAlike answer answer') :
    SelectorsAlike (Selector.settle set.selector a now answer).1
        (Selector.settle set'.selector b now answer').1 ∧
      ChoicesAlike (Selector.settle set.selector a now answer).2
        (Selector.settle set'.selector b now answer').2 := by
  cases hanswer with
  | ok huv => exact ⟨⟨rfl, fun _ => rfl⟩, .ok huv⟩
  | error e f =>
    have hbudget : set.selector.maxAttempts ≤ a.attempts + 1 ↔
        set'.selector.maxAttempts ≤ b.attempts + 1 := by
      rw [← hset.maxAttempts]
      by_cases hexhausted : a.exhaustedAt = none
      · rw [h.attempts hexhausted]
      · have hspent := ha hexhausted
        have hspent' := hb (h.exhausted ▸ hexhausted)
        rw [← hset.maxAttempts] at hspent'
        exact iff_of_true (hspent.trans (Nat.le_succ _)) (hspent'.trans (Nat.le_succ _))
    unfold Selector.settle
    dsimp only
    by_cases hused : set.selector.maxAttempts ≤ a.attempts + 1
    · rw [if_pos hused, if_pos (hbudget.1 hused)]
      exact ⟨⟨rfl, nofun⟩, .exhausted _ _⟩
    · rw [if_neg hused, if_neg (mt hbudget.2 hused)]
      exact ⟨⟨h.exhausted, fun hnone => congrArg (· + 1) (h.attempts hnone)⟩, .ok hset.defaultUrl⟩

/-! ## Stages -/

theorem Twins.say (h : Twins R set set' x x') (records records' : List LogRecord) :
    Twins R set set' (x.say records) (x'.say records') :=
  ⟨h.state, h.endpoint, h.contentHash⟩

theorem rateLimit_twins (hset : SettingsAlike set set') (m : Moment) (r : HttpRequest)
    (h : Twins R set set' x x') :
    (Stage.perform set sv m r x .rateLimit).1 = (Stage.perform set' sv' m r x' .rateLimit).1 ∧
      Twins R set set' (Stage.perform set sv m r x .rateLimit).2
        (Stage.perform set' sv' m r x' .rateLimit).2 := by
  unfold Stage.perform
  rw [← h.state.limiter, ← hset.limit]
  generalize Limiter.check set.limit x.state.limiter r.client m.now = check
  obtain ⟨limiter, result⟩ := check
  have hstate : Agree R set set' { x.state with limiter } { x'.state with limiter } :=
    ⟨⟨rfl, h.state.selector, h.state.outside⟩, h.state.spent, h.state.spent'⟩
  cases result with
  | ok _ => exact ⟨rfl, hstate, h.endpoint, h.contentHash⟩
  | error e => exact ⟨rfl, hstate, h.endpoint, h.contentHash⟩

theorem routing_twins (hset : SettingsAlike set set') (hsv : ServicesAlike R sv sv') (m : Moment)
    (r : HttpRequest) (h : Twins R set set' x x') :
    (Stage.perform set sv m r x .routing).1 = (Stage.perform set' sv' m r x' .routing).1 ∧
      Twins R set set' (Stage.perform set sv m r x .routing).2
        (Stage.perform set' sv' m r x' .routing).2 := by
  unfold Stage.perform
  rcases h.state.selector.gate hset m.now with ⟨hg, hg'⟩ | ⟨j, k, hg, hg'⟩
  · have hquery := hsv.query h.state.outside
    have hnext := hsv.query_next h.state.outside
    have hwait : (sv'.query x'.state.outside).1.wait = (sv.query x.state.outside).1.wait :=
      congrArg (· * millisecond) (hsv.delay h.state.outside).symm
    rw [hg, hg']
    dsimp only
    rw [hwait]
    generalize m.now + (sv.query x.state.outside).1.wait = now
    obtain ⟨hselector, hchoice⟩ :=
      h.state.selector.settle hset h.state.spent h.state.spent' now hquery
    have hspent := h.state.spent.settle now (sv.query x.state.outside).1.answer
    have hspent' := h.state.spent'.settle now (sv'.query x'.state.outside).1.answer
    generalize Selector.settle set.selector x.state.selector now
      (sv.query x.state.outside).1.answer = choice at hselector hchoice hspent ⊢
    generalize Selector.settle set'.selector x'.state.selector now
      (sv'.query x'.state.outside).1.answer = choice' at hselector hchoice hspent' ⊢
    obtain ⟨selector, result⟩ := choice
    obtain ⟨selector', result'⟩ := choice'
    have hstate : Agree R set set' ⟨x.state.limiter, selector, (sv.query x.state.outside).2⟩
        ⟨x'.state.limiter, selector', (sv'.query x'.state.outside).2⟩ :=
      ⟨⟨h.state.limiter, hselector, hnext⟩, hspent, hspent'⟩
    cases hchoice with
    | ok huv => exact ⟨rfl, hstate, .some huv, h.contentHash⟩
    | exhausted j k => exact ⟨rfl, hstate, h.endpoint, h.contentHash⟩
  · rw [hg, hg']
    exact ⟨rfl, h.say _ _⟩

theorem contentRouting_twins (hsv : ServicesAlike R sv sv') (m : Moment) (r : HttpRequest)
    (h : Twins R set set' x x') :
    (Stage.perform set sv m r x .contentRouting).1 =
        (Stage.perform set' sv' m r x' .contentRouting).1 ∧
      Twins R set set' (Stage.perform set sv m r x .contentRouting).2
        (Stage.perform set' sv' m r x' .contentRouting).2 := by
  unfold Stage.perform
  cases payload? r.body with
  | error e => exact ⟨rfl, h⟩
  | ok content =>
    cases content with
    | none => exact ⟨rfl, h⟩
    | some v =>
      have hstored := hsv.upload h.state.outside v
      have hnext := hsv.upload_next h.state.outside v
      rcases hs : sv.upload v x.state.outside with ⟨result, outside⟩
      rcases hs' : sv'.upload v x'.state.outside with ⟨result', outside'⟩
      rw [hs, hs'] at hstored hnext
      have hstate : Agree R set set' { x.state with outside }
          { x'.state with outside := outside' } :=
        ⟨⟨h.state.limiter, h.state.selector, hnext⟩, h.state.spent, h.state.spent'⟩
      simp only [hs, hs']
      cases hstored with
      | ok hash => exact ⟨rfl, hstate, h.endpoint, rfl⟩
      | error e f => exact ⟨rfl, hstate, h.endpoint, h.contentHash⟩

theorem providerBinding_twins (m : Moment) (r : HttpRequest) (h : Twins R set set' x x') :
    (Stage.perform set sv m r x .providerBinding).1 =
        (Stage.perform set' sv' m r x' .providerBinding).1 ∧
      Twins R set set' (Stage.perform set sv m r x .providerBinding).2
        (Stage.perform set' sv' m r x' .providerBinding).2 := by
  unfold Stage.perform
  have hendpoint := h.endpoint
  cases hx : x.endpoint <;> cases hx' : x'.endpoint <;> rw [hx, hx'] at hendpoint
  case none.none => exact ⟨rfl, h⟩
  case none.some => cases hendpoint
  case some.none => cases hendpoint
  case some.some u v =>
    obtain huv : SameEndpoint u v := by cases hendpoint; assumption
    rcases huv.check with ⟨t, t', ht, ht'⟩ | ⟨rfl, hok⟩
    · simp only [ht, ht']
      exact ⟨rfl, h.say _ _⟩
    · simp only [hok]
      exact ⟨trivial, h⟩

theorem quorumCheck_twins (hset : SettingsAlike set set') (hsv : ServicesAlike R sv sv')
    (m : Moment) (r : HttpRequest) (h : Twins R set set' x x') :
    (Stage.perform set sv m r x .quorumCheck).1 = (Stage.perform set' sv' m r x' .quorumCheck).1 ∧
      Twins R set set' (Stage.perform set sv m r x .quorumCheck).2
        (Stage.perform set' sv' m r x' .quorumCheck).2 := by
  unfold Stage.perform
  rw [← hset.enforceQuorum, ← hset.broadcast, ← hsv.peers h.state.outside]
  dsimp only
  split
  · exact ⟨rfl, h⟩
  · split
    · exact ⟨rfl, h⟩
    · exact ⟨rfl, h⟩

/-- **Every stage ends alike on nodes that agree, and they agree after it.** -/
theorem perform_twins (hset : SettingsAlike set set') (hsv : ServicesAlike R sv sv') (m : Moment)
    (r : HttpRequest) (h : Twins R set set' x x') (s : Stage) :
    (s.perform set sv m r x).1 = (s.perform set' sv' m r x').1 ∧
      Twins R set set' (s.perform set sv m r x).2 (s.perform set' sv' m r x').2 := by
  cases s with
  | rateLimit => exact rateLimit_twins hset m r h
  | routing => exact routing_twins hset hsv m r h
  | contentRouting => exact contentRouting_twins hsv m r h
  | providerBinding => exact providerBinding_twins m r h
  | quorumCheck => exact quorumCheck_twins hset hsv m r h

theorem performAll_twins (hset : SettingsAlike set set') (hsv : ServicesAlike R sv sv') (m : Moment)
    (r : HttpRequest) (h : Twins R set set' x x') (stages : List Stage) :
    failedStage? set sv m r stages x = failedStage? set' sv' m r stages x' ∧
      (Stage.performAll set sv m r stages x).1 = (Stage.performAll set' sv' m r stages x').1 ∧
      Twins R set set' (Stage.performAll set sv m r stages x).2
        (Stage.performAll set' sv' m r stages x').2 := by
  induction stages generalizing x x' with
  | nil => exact ⟨rfl, rfl, h⟩
  | cons s rest ih =>
    obtain ⟨hresult, htwins⟩ := perform_twins hset hsv m r h s
    unfold failedStage? Stage.performAll
    generalize s.perform set sv m r x = p at hresult htwins ⊢
    generalize s.perform set' sv' m r x' = p' at hresult htwins ⊢
    obtain ⟨result, y⟩ := p
    obtain ⟨result', y'⟩ := p'
    obtain rfl : result = result' := hresult
    cases result with
    | error e => exact ⟨rfl, rfl, htwins⟩
    | ok _ => exact ih htwins

theorem failedStage?_eq_none_iff :
    failedStage? set sv m r stages x = none ↔
      (Stage.performAll set sv m r stages x).1 = .ok () := by
  induction stages generalizing x with
  | nil => exact iff_of_true rfl rfl
  | cons s rest ih =>
    unfold failedStage? Stage.performAll
    generalize s.perform set sv m r x = p
    obtain ⟨result, y⟩ := p
    cases result with
    | error e => exact iff_of_false (Option.some_ne_none s) (fun h => by cases h)
    | ok _ => exact ih

/-! ## Handlers -/

/-- An endpoint that a request for processing is answered with can be used. -/
theorem endpoint_of_passed
    (h : Stage.performAll set sv m r Route.process.order (.begin st) = (.ok (), y)) :
    ∃ url, y.endpoint = some url ∧ Registry.checkProvider url = .ok () := by
  obtain ⟨x₁, -, hrest⟩ := performAll_cons_ok h
  obtain ⟨x₂, -, hrest⟩ := performAll_cons_ok hrest
  obtain ⟨x₃, -, hrest⟩ := performAll_cons_ok hrest
  obtain ⟨x₄, hbound, hrest⟩ := performAll_cons_ok hrest
  obtain ⟨x₅, hquorum, hrest⟩ := performAll_cons_ok hrest
  cases hrest
  have hsame := (perform_quorumCheck set sv m r x₄).1
  rw [hquorum] at hsame
  obtain rfl : y = x₄ := hsame
  obtain rfl := passed_providerBinding hbound
  unfold Stage.perform at hbound
  dsimp only at hbound
  split at hbound
  · cases hbound
  · rename_i url hurl
    split at hbound
    · rename_i hok
      exact ⟨url, hurl, hok⟩
    · cases hbound

/-- An endpoint that can be used is the same for both. -/
theorem Twins.endpoint_eq (h : Twins R set set' x x') (hurl : x.endpoint = some u)
    (hok : Registry.checkProvider u = .ok ()) : x.endpoint = x'.endpoint := by
  have hendpoint := h.endpoint
  rw [hurl] at hendpoint ⊢
  generalize x'.endpoint = endpoint' at hendpoint ⊢
  cases hendpoint with
  | some huv =>
    rcases huv with rfl | ⟨hu, -⟩
    · rfl
    · exact absurd hok hu

/-- Two answers to a request that tell the same, but that the state of a node is told with an
endpoint that was not tried. -/
inductive ToldAlike (m : Moment) : Option Route → Answer → Answer → Prop where
  | same (route : Option Route) (a : Answer) : ToldAlike m route a a
  | health {u v : String} (h : SameEndpoint u v) (n : Nat) :
      ToldAlike m (some .health) (healthAnswer m u n) (healthAnswer m v n)

theorem ToldAlike.of_eq {route : Option Route} {a a' : Answer} (h : a = a') :
    ToldAlike m route a a' :=
  h ▸ .same route a

/-- **Handlers on nodes that agree tell alike.** -/
theorem handle_twins (hset : SettingsAlike set set') (hsv : ServicesAlike R sv sv') (m : Moment)
    (r : HttpRequest) (h : Twins R set set' x x') (route : Route)
    (hprocess : route = .process → x.endpoint = x'.endpoint) :
    ToldAlike m (some route) (route.handle set sv m r x).1 (route.handle set' sv' m r x').1 := by
  have hpeers := hsv.peers h.state.outside
  cases route with
  | health =>
    unfold Route.handle
    rw [← hpeers]
    refine .health ?_ _
    have hendpoint := h.endpoint
    generalize x.endpoint = endpoint at hendpoint ⊢
    generalize x'.endpoint = endpoint' at hendpoint ⊢
    cases hendpoint with
    | none => exact .inl rfl
    | some huv => exact huv
  | process =>
    refine .of_eq ?_
    unfold Route.handle
    rw [hprocess rfl, h.contentHash]
  | inference =>
    refine .of_eq ?_
    unfold Route.handle broadcastInference
    cases InferenceBody.ofRequest r with
    | error a => rfl
    | ok body =>
      have hask := funext (hsv.ask h.state.outside ⟨m.requestId, body.model, body.input⟩)
      dsimp only
      rw [← hpeers, ← hask, ← hset.broadcast]
  | peers =>
    refine .of_eq ?_
    unfold Route.handle
    rw [hpeers]

/-! ## Requests -/

/-- What becomes of one request on two nodes that agree: the stages `f` and `f'` that it fails at,
the responses and the exchanges. -/
structure ServedAlike (R : σ → σ' → Prop) (set set' : Settings) (m : Moment) (r : HttpRequest)
    (f f' : Option Stage) (p : HttpResponse × Exchange σ) (p' : HttpResponse × Exchange σ') :
    Prop where
  failure : f = f'
  state : Agree R set set' p.2.state p'.2.state
  failed : ∀ stage, f = some stage → ∃ e : ApiError,
    p.1 = frame r false (.ofError e) ∧ p'.1 = frame r false (.ofError e)
  told : p.1 = p'.1 ∨ ∃ a a', p.1 = frame r false a ∧ p'.1 = frame r false a' ∧
    ToldAlike m (Route.ofPath? (pathOf r.target)) a a'

/-- Requests that pass all stages on nodes that agree end alike. -/
theorem ending_twins (hset : SettingsAlike set set') (hsv : ServicesAlike R sv sv') (m : Moment)
    (r : HttpRequest) (h : Twins R set set' x x') (route : Option Route)
    (hprocess : route = some .process → x.endpoint = x'.endpoint) :
    ToldAlike m route (ending set sv m r route (.ok (), x)).1
      (ending set' sv' m r route (.ok (), x')).1 := by
  cases route with
  | none => exact .same _ _
  | some known =>
    by_cases hmethod : r.method ∈ known.methods
    · rw [ending_route hmethod, ending_route hmethod]
      exact handle_twins hset hsv m r h known fun heq => hprocess (congrArg some heq)
    · rw [ending_unmatched hmethod, ending_unmatched hmethod]
      exact .same _ _

/-- **One request on two nodes that agree.** -/
theorem respond_twins (hset : SettingsAlike set set') (hsv : ServicesAlike R sv sv')
    (hst : Agree R set set' st st') (m : Moment) (r : HttpRequest) :
    ServedAlike R set set' m r (failure? set sv m r st) (failure? set' sv' m r st')
      (respond set sv m r st) (respond set' sv' m r st') := by
  unfold failure?
  by_cases hoptions : (r.method == "OPTIONS") = true
  · rw [respond_options hoptions, respond_options hoptions, if_pos hoptions, if_pos hoptions]
    exact ⟨rfl, hst, nofun, .inl rfl⟩
  generalize hroute : Route.ofPath? (pathOf r.target) = route
  rw [respond_ending (Bool.eq_false_iff.2 hoptions) hroute,
    respond_ending (Bool.eq_false_iff.2 hoptions) hroute, if_neg hoptions, if_neg hoptions]
  have hbegin : Twins R set set' (.begin st) (.begin st') := ⟨hst, .none, rfl⟩
  obtain ⟨hfailed, hresult, htwins⟩ :=
    performAll_twins hset hsv m r hbegin (.rateLimit :: stagesBehind route)
  have hnone := @failedStage?_eq_none_iff _ set sv m r (.begin st)
    (.rateLimit :: stagesBehind route)
  rcases hp : Stage.performAll set sv m r (.rateLimit :: stagesBehind route) (.begin st) with
    ⟨result, x⟩
  rcases hp' : Stage.performAll set' sv' m r (.rateLimit :: stagesBehind route) (.begin st') with
    ⟨result', x'⟩
  rw [hp] at hnone
  rw [hp, hp'] at hresult htwins
  obtain rfl : result = result' := hresult
  refine ⟨hfailed, ?_, fun stage hstage => ?_, .inr ⟨_, _, rfl, rfl, ?_⟩⟩
  · rw [state_ending, state_ending]
    exact htwins.state
  · cases result with
    | error e => exact ⟨e, rfl, rfl⟩
    | ok _ => cases hstage.symm.trans (hnone.2 rfl)
  · rw [hroute]
    cases result with
    | error e => exact .same _ _
    | ok _ =>
      refine ending_twins hset hsv m r htwins route ?_
      rintro rfl
      obtain ⟨url, hurl, hok⟩ := endpoint_of_passed hp
      exact htwins.endpoint_eq hurl hok

/-- **Nodes that agree go on to agree**, whatever they are asked. -/
theorem agree_after (hset : SettingsAlike set set') (hsv : ServicesAlike R sv sv')
    (hst : Agree R set set' st st') (requests : List (Moment × HttpRequest)) :
    Agree R set set' (after set sv st requests) (after set' sv' st' requests) := by
  induction requests generalizing st st' with
  | nil => exact hst
  | cons c rest ih => exact ih (respond_twins hset hsv hst c.1 c.2).state

/-- **No error tells what went wrong inside.** Of two nodes that agree but for the texts of errors,
the count of an exhausted selector and endpoints that neither could use, each fails at the same
stage of any request after any others, and then both answer the same. All other answers are the
same as well, but that of `/api/health`, which tells an endpoint that nobody has tried. -/
theorem discretion_spec (R : σ → σ' → Prop) (set set' : Settings) (sv : Services σ)
    (sv' : Services σ') (st : State σ) (st' : State σ') (hset : SettingsAlike set set')
    (hsv : ServicesAlike R sv sv') (hst : StatesAlike R st st')
    (hreach : Selector.Reachable set.selector st.selector)
    (hreach' : Selector.Reachable set'.selector st'.selector)
    (before : List (Moment × HttpRequest)) (m : Moment) (r : HttpRequest) :
    let s := after set sv st before
    let s' := after set' sv' st' before
    let a := (respond set sv m r s).1
    let a' := (respond set' sv' m r s').1
    failure? set sv m r s = failure? set' sv' m r s' ∧
    (∀ stage, failure? set sv m r s = some stage →
      a = a' ∧ ∃ e, a = frame r false (.ofError e)) ∧
    (a = a' ∨ Route.ofPath? (pathOf r.target) = some .health ∧ ∃ u v n, SameEndpoint u v ∧
      a = frame r false (healthAnswer m u n) ∧ a' = frame r false (healthAnswer m v n)) := by
  intro s s' a a'
  have hbegin : Agree R set set' st st' :=
    ⟨hst, spent_of_reachable hreach, spent_of_reachable hreach'⟩
  have hserved := respond_twins hset hsv (agree_after hset hsv hbegin before) m r
  refine ⟨hserved.failure, fun stage hstage => ?_, ?_⟩
  · obtain ⟨e, he, he'⟩ := hserved.failed stage hstage
    exact ⟨he.trans he'.symm, e, he⟩
  · rcases hserved.told with heq | ⟨b, b', hb, hb', htold⟩
    · exact .inl heq
    · generalize Route.ofPath? (pathOf r.target) = route at htold ⊢
      cases htold with
      | same => exact .inl (hb.trans hb'.symm)
      | health huv n => exact .inr ⟨rfl, _, _, n, huv, hb, hb'⟩

/-- A node whose registry and store fail with a text of their own. -/
def failing (text : String) : Services Unit where
  query _ := (⟨0, .error (.registry text)⟩, ())
  upload _ _ := (.error (.upload text), ())
  peers _ := []
  ask _ _ _ := ⟨none, .error .closed⟩

/-- Two nodes with one attempt, each with a default endpoint that is no URL. -/
def settingsWith (url : String) : Settings :=
  ⟨⟨9, second⟩, ⟨url, 1, second⟩, false, ⟨⟨1, .zero⟩, second, second⟩⟩

/-- Behind a failure that differs, the same error is told. -/
theorem discretion_spec_failing :
    let r : HttpRequest := ⟨"GET", "/api/health", [], [], .v4 [127, 0, 0, 1]⟩
    let start : State Unit := ⟨.empty, .fresh, ()⟩
    let before := [(⟨0, 0, "id"⟩, r)]
    let s := after (settingsWith "left") (failing "left") start before
    let s' := after (settingsWith "right") (failing "right") start before
    SettingsAlike (settingsWith "left") (settingsWith "right") ∧
      ServicesAlike (fun _ _ => True) (failing "left") (failing "right") ∧
      StatesAlike (fun _ _ => True) start start ∧
      Selector.Reachable (settingsWith "left").selector start.selector ∧
      Selector.Reachable (settingsWith "right").selector start.selector ∧
      failure? (settingsWith "left") (failing "left") ⟨1, 1, "id"⟩ r s = some .routing ∧
      (respond (settingsWith "left") (failing "left") ⟨1, 1, "id"⟩ r s).1 =
        (respond (settingsWith "right") (failing "right") ⟨1, 1, "id"⟩ r s').1 := by
  intro r start before s s'
  have hset : SettingsAlike (settingsWith "left") (settingsWith "right") :=
    ⟨rfl, .inr ⟨by decide +kernel, by decide +kernel⟩, rfl, rfl, rfl, rfl⟩
  have hsv : ServicesAlike (fun _ _ => True) (failing "left") (failing "right") :=
    ⟨fun _ => .error _ _, fun _ => rfl, fun _ => trivial, fun _ _ => .error _ _,
      fun _ _ => trivial, fun _ => rfl, fun _ _ _ => rfl⟩
  have hst : StatesAlike (fun _ _ => True) start start :=
    ⟨rfl, ⟨rfl, fun _ => rfl⟩, trivial⟩
  have hreach (s : Selector.Settings) : Selector.Reachable s start.selector :=
    ⟨0, _, .zero _, rfl⟩
  have hfailure : failure? (settingsWith "left") (failing "left") ⟨1, 1, "id"⟩ r s =
      some .routing := by decide +kernel
  exact ⟨hset, hsv, hst, hreach _, hreach _, hfailure,
    ((discretion_spec (fun _ _ => True) _ _ _ _ _ _ hset hsv hst (hreach _) (hreach _) before
      ⟨1, 1, "id"⟩ r).2.1 _ hfailure).1⟩

end Quorum.Api
