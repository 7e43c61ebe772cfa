import Mathlib
import Quorum.Proofs.Api.Errors
import Quorum.Proofs.Json.Extent

/-!
# The content of a request

A request for processing that passes all stages has had its payload stored and is answered with
an object that has the payload's name (`respond_passed`). What the payload is can be told from the
text of the body: the last `data` member of the object that it spells, unless that is nothing,
falsehood, zero or the empty text (`payload?_eq_none_iff`, `payload?_document`).
-/

namespace Quorum.Api

open Json (Document last? lastMember? collapse)

variable {σ : Type}

/-- Values that do not count as a payload. -/
inductive Falsy : Json → Prop where
  | null : Falsy .null
  | false : Falsy (.bool false)
  | zero : Falsy (.integer 0)
  | zeroDouble {x : Double} (h : x.isZero = true) : Falsy (.double x)
  | empty : Falsy (.string "")

/-- Documents that have no payload. -/
inductive Bare : Json → Prop where
  | noObject {d : Json} (h : ∀ ms, d ≠ .object ms) : Bare d
  | noMember {ms : List (String × Json)} (h : last? "data" ms = none) : Bare (.object ms)
  | falsy {ms : List (String × Json)} {v : Json} (h : last? "data" ms = some v) (hv : Falsy v) :
      Bare (.object ms)

/-- The value is the payload of the body: the last `data` of the object that the body spells, if it
counts. -/
def Payload (body : Bytes) (v : Json) : Prop :=
  ∃ ms, Document (.object ms) body ∧ last? "data" ms = some v ∧ ¬ Falsy v

/-- The object that tells of a processed request: the name of its payload, if it has one, and the
endpoint that was chosen for it. -/
def processedDocument (url : String) (hash : Option String) : Json :=
  .object [("status", .string "success"), ("ipfsHash", (hash.map .string).getD .null),
    ("rpcEndpoint", .string url)]

/-- The response tells of a processed request, in JSON. -/
structure Processed (a : HttpResponse) (url : String) (hash : Option String) : Prop where
  status : a.status = 200
  mediaType : a.headers.lookup "content-type" = some "application/json"
  body : Document (processedDocument url hash) (Utf8.encode a.body)

/-- The payload that an effect stores. -/
def Effect.payload? : Effect → Option Json
  | upload v => some v
  | _ => none

variable {set : Settings} {sv : Services σ} {m : Moment} {r : HttpRequest} {st : State σ}
  {x y : Exchange σ} {v : Json} {body : Bytes} {d : Json}

/-! ## Payloads -/

theorem isPresent_eq_false_iff : isPresent v = false ↔ Falsy v := by
  constructor
  · intro h
    cases v with
    | null => exact .null
    | bool b =>
      obtain rfl : b = false := h
      exact .false
    | integer n =>
      simp only [isPresent, bne_eq_false_iff_eq] at h
      exact h ▸ .zero
    | double x =>
      simp only [isPresent, Bool.not_eq_false'] at h
      exact .zeroDouble h
    | string s =>
      simp only [isPresent, Bool.not_eq_false', String.isEmpty_iff] at h
      exact h ▸ .empty
    | array items => cases h
    | object members => cases h
  · intro h
    cases h with
    | zeroDouble h => simp [isPresent, h]
    | _ => rfl

theorem isPresent_collapse (v : Json) : isPresent (collapse v) = isPresent v := by
  cases v <;> rfl

/-- What a payload is taken from. -/
theorem payload?_eq_ok {content : Option Json} (h : payload? body = .ok content) :
    (body = [] ∧ content = none) ∨
      ∃ w, Json.read body = .ok w ∧ content = (w.member? "data").filter isPresent := by
  unfold payload? at h
  split at h
  · cases h
  · split at h
    · rename_i hempty
      cases h
      exact .inl ⟨List.isEmpty_iff.1 hempty, rfl⟩
    · split at h
      · cases h
      · rename_i w hw
        cases h
        exact .inr ⟨w, hw, rfl⟩

theorem document_ne_nil (hd : Document d body) : body ≠ [] := by
  obtain ⟨t, ws, ht, -, rfl⟩ := hd
  obtain ⟨ws', u, -, ⟨b, u, rfl, -⟩, rfl⟩ := ht.opens
  simp

/-- **The payload of a document's text** is its last `data`, collapsed, if that is present. -/
theorem payload?_document (hd : Document d body) {content : Option Json}
    (h : payload? body = .ok content) :
    content = ((d.lastMember? "data").filter isPresent).map collapse := by
  rcases payload?_eq_ok h with ⟨hnil, -⟩ | ⟨w, hw, rfl⟩
  · exact absurd hnil (document_ne_nil hd)
  · rw [hd.read_eq hw, Json.member?_collapse]
    cases d.lastMember? "data" with
    | none => rfl
    | some v => simp only [Option.map_some, Option.filter, isPresent_collapse]; split <;> rfl

theorem Payload.eq_some (hv : Payload body v) {content : Option Json}
    (h : payload? body = .ok content) : content = some (collapse v) := by
  obtain ⟨ms, hd, hlast, hfalsy⟩ := hv
  have hpresent : isPresent v = true :=
    Bool.eq_true_of_not_eq_false fun hfalse => hfalsy (isPresent_eq_false_iff.1 hfalse)
  rw [payload?_document hd h, lastMember?, hlast, Option.filter_some, if_pos hpresent,
    Option.map_some]

theorem bare_iff : Bare d ↔ (d.lastMember? "data").filter isPresent = none := by
  constructor
  · intro h
    cases h with
    | noObject h =>
      cases d with
      | object ms => exact absurd rfl (h ms)
      | _ => rfl
    | noMember h => simp [lastMember?, h]
    | falsy h hv => simp [lastMember?, h, Option.filter, isPresent_eq_false_iff.2 hv]
  · intro h
    cases d with
    | object ms =>
      cases hlast : last? "data" ms with
      | none => exact .noMember hlast
      | some v =>
        rw [lastMember?, hlast, Option.filter_eq_none_iff] at h
        exact .falsy hlast (isPresent_eq_false_iff.1 (by simpa using h v rfl))
    | _ => exact .noObject (by simp)

/-- **There is no payload exactly if the body is empty or spells a bare document.** -/
theorem payload?_eq_none_iff {content : Option Json} (h : payload? body = .ok content) :
    content = none ↔ body = [] ∨ ∃ d, Document d body ∧ Bare d := by
  constructor
  · rintro rfl
    rcases payload?_eq_ok h with ⟨hnil, -⟩ | ⟨w, hw, -⟩
    · exact .inl hnil
    · obtain ⟨d, hd, -⟩ := Json.spells_of_read hw
      have hnone := payload?_document hd h
      rw [eq_comm, Option.map_eq_none_iff] at hnone
      exact .inr ⟨d, hd, bare_iff.2 hnone⟩
  · rintro (rfl | ⟨d, hd, hbare⟩)
    · cases h
      rfl
    · rw [payload?_document hd h, bare_iff.1 hbare, Option.map_none]

/-- A payload can be stored and read back: it is valid, and no deeper than a body may be. -/
theorem payload?_fits (h : payload? body = .ok (some v)) :
    v.Valid ∧ v.depth < Json.depthLimit := by
  rcases payload?_eq_ok h with ⟨-, hnone⟩ | ⟨w, hw, hv⟩
  · cases hnone
  · have hvalid := Json.valid_of_read hw
    have hdepth := (Json.fits_of_read hw).1
    obtain ⟨hmember, -⟩ := Option.filter_eq_some_iff.1 hv.symm
    cases w with
    | object ms =>
      obtain ⟨a, ha, rfl⟩ := Option.map_eq_some_iff.1 hmember
      have hmem := List.mem_of_find?_eq_some ha
      rw [Json.depth] at hdepth
      have hlt := (Json.depthMembers_lt_iff (show 0 < Json.depthLimit by decide)).1
        (Nat.lt_of_succ_lt hdepth) a hmem
      exact ⟨Json.validMembers_iff.1 hvalid.2 a hmem, hlt⟩
    | _ => cases hmember

/-- Bodies that spell alike documents have the same payload. -/
theorem payload?_alike {d d' : Json} {body' : Bytes} {content content' : Option Json}
    (hd : Document d body) (hd' : Document d' body') (halike : Json.Alike d d')
    (h : payload? body = .ok content) (h' : payload? body' = .ok content') :
    content = content' := by
  rcases payload?_eq_ok h with ⟨hnil, -⟩ | ⟨w, hw, rfl⟩
  · exact absurd hnil (document_ne_nil hd)
  rcases payload?_eq_ok h' with ⟨hnil, -⟩ | ⟨w', hw', rfl⟩
  · exact absurd hnil (document_ne_nil hd')
  rw [Json.read_alike hd hd' halike hw hw']

/-! ## The stages of a request that is processed -/

theorem passed_rateLimit (h : Stage.perform set sv m r x .rateLimit = (.ok (), y)) :
    y.contentHash = x.contentHash ∧ y.effects = x.effects ∧ y.state.outside = x.state.outside := by
  unfold Stage.perform at h
  dsimp only at h
  split at h
  · cases h
    exact ⟨rfl, rfl, rfl⟩
  · cases h

theorem passed_routing (h : Stage.perform set sv m r x .routing = (.ok (), y)) :
    (∃ url, y.endpoint = some url) ∧ y.contentHash = x.contentHash ∧
      y.effects = x.effects ++ [.query] ∧ y.state.outside = (sv.query x.state.outside).2 := by
  unfold Stage.perform at h
  dsimp only at h
  split at h
  · cases h
  · split at h
    · cases h
      exact ⟨⟨_, rfl⟩, rfl, rfl, rfl⟩
    · cases h

theorem passed_contentRouting (h : Stage.perform set sv m r x .contentRouting = (.ok (), y)) :
    y.endpoint = x.endpoint ∧ ∃ content, payload? r.body = .ok content ∧
      y.effects = x.effects ++ (content.map Effect.upload).toList ∧
      match content with
      | none => y.contentHash = x.contentHash
      | some v => ∃ hash, (sv.upload v x.state.outside).1 = .ok hash ∧
          y.contentHash = some hash := by
  unfold Stage.perform at h
  dsimp only at h
  split at h
  · cases h
  · rename_i hbody
    cases h
    exact ⟨rfl, none, hbody, (List.append_nil _).symm, rfl⟩
  · rename_i v hbody
    split at h
    · rename_i hash hupload
      cases h
      exact ⟨rfl, some v, hbody, rfl, hash, hupload, rfl⟩
    · cases h

theorem passed_providerBinding (h : Stage.perform set sv m r x .providerBinding = (.ok (), y)) :
    y = x := by
  unfold Stage.perform at h
  dsimp only at h
  split at h
  · cases h
  · split at h
    · cases h
      rfl
    · cases h

theorem performAll_cons_ok {s : Stage} {stages : List Stage}
    (h : Stage.performAll set sv m r (s :: stages) x = (.ok (), y)) :
    ∃ z, s.perform set sv m r x = (.ok (), z) ∧
      Stage.performAll set sv m r stages z = (.ok (), y) := by
  rw [Stage.performAll] at h
  split at h
  · cases h
  · rename_i z hz
    exact ⟨z, hz, h⟩

/-- A request with a body is told of its processing. -/
theorem processed_frame (hmethod : r.method = "POST") (url : String) (hash : Option String) :
    Processed (frame r false (processAnswer url hash)) url hash where
  status := rfl
  mediaType := lookup_frame r false _
  body := by
    have hbody : (frame r false (processAnswer url hash)).body = (processAnswer url hash).body := by
      simp [frame, wantsHeadersOnly, hmethod]
    rw [hbody]
    refine Json.document_renderMembers [("status", .string "success"),
      ("ipfsHash", (hash.map .string).getD .null), ("rpcEndpoint", .string url)] fun m hm => ?_
    simp only [List.mem_cons, List.not_mem_nil, or_false] at hm
    rcases hm with rfl | rfl | rfl
    · exact Json.spells_string _
    · cases hash with
      | none => exact Json.spells_null
      | some name => exact Json.spells_string name
    · exact Json.spells_string _

/-- **The answer to a request for processing that passes all stages** has the name that the
payload was stored under, if there is one; nothing else was stored. -/
theorem respond_passed (sv : Services σ) (hpath : pathOf r.target = "/api/process")
    (hmethod : r.method = "POST")
    (hpass : (Stage.performAll set sv m r Route.process.order (.begin st)).1 = .ok ()) :
    ∃ url content hash, payload? r.body = .ok content ∧
      Processed (respond set sv m r st).1 url hash ∧
      (respond set sv m r st).2.effects = .query :: (content.map Effect.upload).toList ∧
      match content with
      | none => hash = none
      | some v => ∃ name, (sv.upload v (sv.query st.outside).2).1 = .ok name ∧
          hash = some name := by
  have hroute : Route.ofPath? (pathOf r.target) = some .process := by
    rw [hpath]
    decide +kernel
  obtain ⟨y, hy⟩ : ∃ y, Stage.performAll set sv m r Route.process.order (.begin st) = (.ok (), y) :=
    ⟨_, Prod.ext hpass rfl⟩
  obtain ⟨x₁, h₁, hrest⟩ := performAll_cons_ok hy
  obtain ⟨x₂, h₂, hrest⟩ := performAll_cons_ok hrest
  obtain ⟨x₃, h₃, hrest⟩ := performAll_cons_ok hrest
  obtain ⟨x₄, h₄, hrest⟩ := performAll_cons_ok hrest
  obtain ⟨x₅, h₅, hrest⟩ := performAll_cons_ok hrest
  cases hrest
  have hquorum := (perform_quorumCheck set sv m r x₄).1
  rw [h₅] at hquorum
  obtain rfl : y = x₄ := hquorum
  obtain rfl := passed_providerBinding h₄
  obtain ⟨hhash₁, heffects₁, houtside₁⟩ := passed_rateLimit h₁
  obtain ⟨⟨url, hurl⟩, hhash₂, heffects₂, houtside₂⟩ := passed_routing h₂
  obtain ⟨hendpoint, content, hcontent, heffects₃, hname⟩ := passed_contentRouting h₃
  have hrespond : respond set sv m r st =
      (frame r false (processAnswer (y.endpoint.getD "") y.contentHash), y) := by
    rw [respond_route set sv m st hroute (hmethod ▸ List.mem_singleton_self _), hy]
    rfl
  rw [hrespond]
  refine ⟨url, content, y.contentHash, hcontent, ?_, ?_, ?_⟩
  · rw [hendpoint, hurl, Option.getD_some]
    exact processed_frame hmethod url y.contentHash
  · rw [heffects₃, heffects₂, heffects₁]
    rfl
  · rw [houtside₂, houtside₁] at hname
    cases content with
    | none => exact hname.trans (hhash₂.trans hhash₁)
    | some v => exact hname

/-! ## What a request leaves outside -/

/-- **The outside is what the effects of a request made of it**, whichever way the request goes. -/
theorem outside_respond (set : Settings) (sv : Services σ) (m : Moment) (r : HttpRequest)
    (st : State σ) : (respond set sv m r st).2.state.outside =
      (respond set sv m r st).2.effects.foldl sv.act st.outside := by
  by_cases hoptions : (r.method == "OPTIONS") = true
  · rw [respond_options hoptions]
    rfl
  generalize hroute : Route.ofPath? (pathOf r.target) = route
  rw [respond_ending (Bool.eq_false_iff.2 hoptions) hroute]
  obtain ⟨performed, hcourse⟩ :=
    performAll_course set sv m r (.rateLimit :: stagesBehind route) (.begin st)
  generalize Stage.performAll set sv m r (.rateLimit :: stagesBehind route) (.begin st) = p
    at hcourse ⊢
  obtain ⟨result, y⟩ := p
  have houtside : y.state.outside = y.effects.foldl sv.act st.outside := hcourse.outside rfl
  cases result with
  | error e => exact houtside
  | ok _ =>
    cases route with
    | none => exact houtside
    | some known =>
      by_cases hmethod : r.method ∈ known.methods
      · rw [ending_route hmethod, state_handle, effects_handle, List.foldl_append, ← houtside,
          act_handle]
      · rw [ending_unmatched hmethod]
        exact houtside

end Quorum.Api
