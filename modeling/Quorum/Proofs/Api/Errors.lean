import Mathlib
import Quorum.Proofs.Api.Respond
import Quorum.Proofs.Json.Documents

/-!
# Answers that tell of an error

Whatever a stage or a vote fails with is sent as the same JSON object, with a text of its own in
it (`documented_ofError`). The one answer of a route that is told otherwise is the refusal of a
body for inference: the stages are passed by then, and nobody makes an error of it
(`errors_spec`).
-/

namespace Quorum.Api

open Json (Document)

variable {σ : Type}

/-- The object that tells of an error. -/
def errorDocument (message : String) : Json :=
  .object [("status", .string "error"), ("message", .string message)]

/-- The response tells of an error as all should: it is JSON, and its body is a text of the object
with the message. Where the headers alone are asked for there is no body. -/
structure Documented (r : HttpRequest) (a : HttpResponse) (message : String) : Prop where
  mediaType : a.headers.lookup "content-type" = some "application/json"
  body : if wantsHeadersOnly r then a.body = ""
    else Document (errorDocument message) (Utf8.encode a.body)

/-- The request passes the stages for inference, and then its body is refused. -/
structure Unread (set : Settings) (sv : Services σ) (m : Moment) (r : HttpRequest) (st : State σ)
    (refusal : Answer) : Prop where
  route : Route.ofPath? (pathOf r.target) = some .inference
  passed : (Stage.performAll set sv m r Route.inference.order (.begin st)).1 = .ok ()
  body : InferenceBody.ofRequest r = .error refusal

/-- The codes that stages and votes fail with. -/
def errorCodes : List Nat := 429 :: failureCodes

variable {set : Settings} {sv : Services σ} {m : Moment} {r : HttpRequest} {st : State σ}
  {route : Route} {s : Stage} {stages performed : List Stage} {x y : Exchange σ}
  {result : Except ApiError Unit} {e : ApiError}

/-! ## Codes -/

/-- **Every stage fails with one of a few codes.** -/
theorem status_perform (h : s.perform set sv m r x = (.error e, y)) : e.status ∈ errorCodes := by
  by_cases hlimit : s = .rateLimit
  · subst hlimit
    obtain ⟨-, -, -, hstatus⟩ := perform_rateLimit set sv m r x
    rw [h] at hstatus
    exact hstatus e rfl ▸ List.mem_cons_self
  · exact List.mem_cons_of_mem _ ((performed_of_eq h).status hlimit e rfl)

theorem Course.status_mem (h : Course set sv m r stages x performed result y) :
    ∀ e, result = .error e → e.status ∈ errorCodes := by
  induction h with
  | done => nofun
  | failed h =>
    rintro e ⟨⟩
    exact status_perform h
  | passed _ _ ih => exact ih

/-! ## Responses -/

theorem lookup_frame (r : HttpRequest) (preflight : Bool) (a : Answer) :
    (frame r preflight a).headers.lookup "content-type" = a.mediaType := by
  have hallow : (allowHeader r).lookup "content-type" = none := by
    unfold allowHeader
    split
    · split <;> rfl
    · rfl
  have hsharing : (sharingHeaders preflight).lookup "content-type" = none := by
    cases preflight <;> rfl
  cases hmedia : a.mediaType <;>
    simp [frame, hmedia, List.lookup_append, hallow, hsharing, List.lookup_cons]

/-- **An error is told as all should be.** -/
theorem documented_ofError (r : HttpRequest) (e : ApiError) :
    Documented r (frame r false (.ofError e)) e.message where
  mediaType := lookup_frame r false _
  body := by
    by_cases hhead : wantsHeadersOnly r = true
    · simp [frame, hhead]
    · have hbody : (frame r false (.ofError e)).body = e.body := by
        simp [frame, hhead, Answer.ofError]
      rw [if_neg hhead, hbody, ApiError.body]
      refine Json.document_renderMembers
        [("status", .string "error"), ("message", .string e.message)] fun m hm => ?_
      simp only [List.mem_cons, List.not_mem_nil, or_false] at hm
      rcases hm with rfl | rfl <;> exact Json.spells_string _

theorem not_documented {a : Answer} (h : a.mediaType = some "text/plain; charset=utf-8")
    (message : String) : ¬ Documented r (frame r false a) message := by
  intro hd
  have htype := hd.mediaType
  rw [lookup_frame, h] at htype
  exact absurd (Option.some.inj htype) (by decide)

/-- **Every error of a route is told as all should be, but for one.** A request for a route is
answered with 200 or with one of the codes above. Each answer from 400 on is JSON with the object
that tells of an error, exactly if it is no refusal of a body for inference; a refusal is a plain
text. -/
theorem errors_spec (set : Settings) (sv : Services σ) (m : Moment) (r : HttpRequest)
    (st : State σ) (route : Route) (hroute : Route.ofPath? (pathOf r.target) = some route)
    (hmethod : r.method ∈ route.methods) :
    let a := (respond set sv m r st).1
    (a.status = 200 ∨ a.status ∈ errorCodes ∨ a.status ∈ refusalCodes) ∧
    (400 ≤ a.status →
      ((∃ message, Documented r a message) ↔ ¬ ∃ refusal, Unread set sv m r st refusal)) ∧
    ∀ refusal, Unread set sv m r st refusal → a = frame r false refusal ∧
      refusal.mediaType = some "text/plain; charset=utf-8" ∧ refusal.status ∈ refusalCodes := by
  intro a
  have ha : a = (conclude set sv m r route (Stage.performAll set sv m r route.order (.begin st)).1
      (Stage.performAll set sv m r route.order (.begin st)).2).1 :=
    congrArg Prod.fst (respond_route set sv m st hroute hmethod)
  have hunread {b : Answer} (hb : Unread set sv m r st b) : route = .inference :=
    Option.some.inj (hroute.symm.trans hb.route)
  obtain ⟨performed, hcourse⟩ := performAll_course set sv m r route.order (.begin st)
  cases hresult : (Stage.performAll set sv m r route.order (.begin st)).1 with
  | error e =>
    rw [hresult] at ha hcourse
    have hnone (b : Answer) : ¬ Unread set sv m r st b := fun hb => by
      have hpassed := hb.passed
      rw [← hunread hb, hresult] at hpassed
      cases hpassed
    refine ⟨.inr (.inl ?_), fun _ => iff_of_true ⟨e.message, ?_⟩ (not_exists.2 hnone),
      fun b hb => absurd hb (hnone b)⟩
    · rw [ha]
      exact hcourse.status_mem e rfl
    · rw [ha]
      exact documented_ofError r e
  | ok u =>
    rw [hresult] at ha
    have hcases := handle_cases set sv m r route
      (Stage.performAll set sv m r route.order (.begin st)).2
    have htold : a = frame r false (route.handle set sv m r
      (Stage.performAll set sv m r route.order (.begin st)).2).1 := ha
    generalize (route.handle set sv m r
      (Stage.performAll set sv m r route.order (.begin st)).2).1 = told at htold hcases
    have hstatus : a.status = told.status := by rw [htold]; rfl
    rcases hcases with ⟨rfl, hbody⟩ | ⟨hread, hwell⟩
    · obtain ⟨hplain, hcode⟩ := refusal_of_ofRequest hbody
      have hsome : Unread set sv m r st told := ⟨hroute, hresult, hbody⟩
      refine ⟨.inr (.inr (hstatus ▸ hcode)), fun _ => iff_of_false ?_ (not_not_intro ⟨_, hsome⟩),
        fun b hb => ?_⟩
      · rintro ⟨message, hd⟩
        exact not_documented hplain message (htold ▸ hd)
      · obtain rfl : told = b := Except.error.inj (hbody.symm.trans hb.body)
        exact ⟨htold, hplain, hcode⟩
    · have hnone (b : Answer) : ¬ Unread set sv m r st b := fun hb =>
        hread (hunread hb) b hb.body
      rcases hwell with hwell | ⟨e, rfl, hcode⟩
      · exact ⟨.inl (hstatus.trans hwell), fun h => by omega, fun b hb => absurd hb (hnone b)⟩
      · refine ⟨.inr (.inl (hstatus ▸ List.mem_cons_of_mem _ hcode)),
          fun _ => iff_of_true ⟨e.message, ?_⟩ (not_exists.2 hnone),
          fun b hb => absurd hb (hnone b)⟩
        rw [htold]
        exact documented_ofError r e

/-- A node without an endpoint says so as all errors are told. -/
theorem errors_spec_unrouted :
    let r : HttpRequest := ⟨"POST", "/api/process", [], [], .v4 [127, 0, 0, 1]⟩
    let a := (respond ⟨⟨1, second⟩, ⟨"", 1, second⟩, true, ⟨⟨1, .zero⟩, second, second⟩⟩ unrouted
      ⟨0, 0, "id"⟩ r ⟨.empty, .fresh, ()⟩).1
    Route.ofPath? (pathOf r.target) = some .process ∧ r.method ∈ Route.process.methods ∧
      a.status = 503 ∧ ∃ message, Documented r a message := by
  intro r a
  have hroute : Route.ofPath? (pathOf r.target) = some .process := by decide +kernel
  have hmethod : r.method ∈ Route.process.methods := by decide
  have hstatus : a.status = 503 := by decide +kernel
  obtain ⟨-, hdocumented, -⟩ :=
    errors_spec ⟨⟨1, second⟩, ⟨"", 1, second⟩, true, ⟨⟨1, .zero⟩, second, second⟩⟩ unrouted
      ⟨0, 0, "id"⟩ r ⟨.empty, .fresh, ()⟩ .process hroute hmethod
  have herror : 400 ≤ a.status := by
    rw [hstatus]
    decide
  refine ⟨hroute, hmethod, hstatus, (hdocumented herror).2 ?_⟩
  rintro ⟨b, hb⟩
  cases hroute.symm.trans hb.route

/-- **A body of no type is refused in plain text**, though the request is one for a route. -/
theorem refused_plain :
    let r : HttpRequest := ⟨"POST", "/api/inference", [], Utf8.encode "\x7b\"model_id\":\"m\"\x7d",
      .v4 [127, 0, 0, 1]⟩
    let a := (respond ⟨⟨1, second⟩, ⟨"", 1, second⟩, false, ⟨⟨1, .zero⟩, second, second⟩⟩ unrouted
      ⟨0, 0, "id"⟩ r ⟨.empty, .fresh, ()⟩).1
    Route.ofPath? (pathOf r.target) = some .inference ∧ r.method ∈ Route.inference.methods ∧
      a.status = 415 ∧ a.body = "Expected request with `Content-Type: application/json`" ∧
      ∀ message, ¬ Documented r a message := by
  intro r a
  have hroute : Route.ofPath? (pathOf r.target) = some .inference := by decide +kernel
  have hmethod : r.method ∈ Route.inference.methods := by decide
  have ha : a = frame r false
      (.plain 415 "Expected request with `Content-Type: application/json`") := by decide +kernel
  refine ⟨hroute, hmethod, by rw [ha]; rfl, by decide +kernel, fun message => ?_⟩
  rw [ha]
  exact not_documented rfl message

end Quorum.Api
