import Mathlib
import Quorum.Proofs.Api.Respond
import Quorum.Proofs.Json.Records
import Quorum.Proofs.Message.Codec

/-!
# What peers are sent

The request that a node sends to its peers is written anew from the body that it was asked with.
Only doubles can make it longer than that body: each is written in 31 bytes at most, however short
it was. So bodies with few doubles are within the limit of a message, and such a request is read
back as it was sent if its doubles are (`dispatch_spec`). With many of them, or with one that is
read as another one, it is not (`dispatch_lost`).
-/

namespace Quorum.Api

open Json Ascii Utf8

variable {σ : Type} {set : Settings} {sv : Services σ} {m : Moment} {r : HttpRequest} {st : State σ}

/-! ## Bodies -/

/-- A body takes up no more than its bytes, but for an input that is left out. -/
theorem ofRequest_fits {body : InferenceBody} (h : InferenceBody.ofRequest r = .ok body) :
    r.body.length ≤ InferenceBody.limit ∧ Valid body.input ∧ body.input.depth ≤ 126 ∧
      extent (string body.model) + extent body.input ≤ r.body.length + 4 := by
  unfold InferenceBody.ofRequest at h
  split at h
  · cases h
  split at h
  · cases h
  rename_i hlimit
  split at h
  · cases h
  rename_i values rest hvalues
  cases h
  obtain ⟨total, ⟨hgets, hsum⟩, htotal⟩ :=
    InferenceBody.shape.readFront_leaves r.body values rest hvalues
  -- the four bytes of the null that stands for an input left out
  have hfallback : Shape.fallbackExtent InferenceBody.shape.members = 4 := by decide
  cases hgets with | cons hmodel hgets =>
  cases hgets with | cons hinput hgets =>
  cases hgets
  rcases hmodel with ⟨-, -, htext⟩ | hnone
  · obtain ⟨model, rfl⟩ := htext rfl
    rename_i input
    have hinput : Valid input ∧ input.depth ≤ 126 := by
      rcases hinput with ⟨hvalid, hdepth, -⟩ | hnull
      · exact ⟨hvalid, Nat.le_of_lt_succ hdepth⟩
      · cases hnull
        exact ⟨trivial, Nat.zero_le _⟩
    simp only [List.map_cons, List.map_nil, List.sum_cons, List.sum_nil] at hsum
    refine ⟨Nat.not_lt.1 hlimit, hinput.1, hinput.2, ?_⟩
    show extent (string model) + extent input ≤ _
    omega
  · cases hnone

theorem length_render (q : Request) :
    (Utf8.encode q.render).length = (valueBytes (string q.id)).length +
      (valueBytes (string q.model)).length + (valueBytes q.input).length + 36 := by
  have hid : (stringTail "request_id").length = 11 := rfl
  have hmodel : (stringTail "model_id").length = 9 := rfl
  have hinput : (stringTail "input").length = 6 := rfl
  rw [Request.encode_render, Request.members, valueBytes_object, membersBytes_cons,
    membersBytes_cons]
  simp only [memberBytes, membersBytes, membersChars, encodeChars_nil, List.length_cons,
    List.length_append, List.length_nil]
  omega

/-! ## Broadcasts -/

/-- A request that no handler takes comes to no broadcast. -/
theorem broadcast_not_mem_unmatched {requests : List (PeerId × Request)}
    (hmatch : ¬ ∃ route, Route.ofPath? (pathOf r.target) = some route ∧
      r.method ∈ route.methods) :
    .broadcast requests ∉ (respond set sv m r st).2.effects := by
  by_cases hoptions : (r.method == "OPTIONS") = true
  · rw [respond_options hoptions]
    exact List.not_mem_nil
  generalize hroute : Route.ofPath? (pathOf r.target) = route at hmatch
  rw [respond_ending (Bool.eq_false_iff.2 hoptions) hroute]
  have hstages : (Stage.rateLimit :: stagesBehind route).Nodup := by
    cases route with
    | none => decide
    | some known => cases known <;> decide
  obtain ⟨performed, hcourse⟩ :=
    performAll_course set sv m r (.rateLimit :: stagesBehind route) (.begin st)
  have hnone := hcourse.broadcast_not_mem hstages rfl requests
  generalize Stage.performAll set sv m r (.rateLimit :: stagesBehind route) (.begin st) = p
    at hnone ⊢
  obtain ⟨result, x⟩ := p
  cases result with
  | error e => exact hnone
  | ok _ =>
    cases route with
    | none => exact hnone
    | some known =>
      rw [ending_unmatched fun hmethod => hmatch ⟨known, rfl, hmethod⟩]
      exact hnone

/-- Peers are sent what the body asks for, with an id. -/
theorem exists_body_of_broadcast {requests : List (PeerId × Request)}
    (h : .broadcast requests ∈ (respond set sv m r st).2.effects) :
    ∃ body, InferenceBody.ofRequest r = .ok body ∧
      requests =
        (sv.peers st.outside).map fun p => (p, ⟨m.requestId, body.model, body.input⟩) := by
  by_cases hmatch : ∃ route, Route.ofPath? (pathOf r.target) = some route ∧
      r.method ∈ route.methods
  · obtain ⟨route, hroute, hmethod⟩ := hmatch
    by_cases hcheck : (Limiter.check set.limit st.limiter r.client m.now).2 = .ok ()
    · obtain ⟨-, -, -, hbody⟩ := (broadcast_mem_respond hroute hmethod hcheck).1 h
      exact hbody
    · rw [(respond_refused sv hroute hmethod hcheck).2.1] at h
      cases h
  · exact absurd h (broadcast_not_mem_unmatched hmatch)

/-! ## A node that is asked -/

/-- A body that asks for the input whose text is `w`. -/
def posting (w : Bytes) : Bytes :=
  encode "\x7b\"model_id\":\"m\",\"input\":" ++ (w ++ [closeBrace])

/-- A request with such a body. -/
def asking (w : Bytes) : HttpRequest :=
  ⟨"POST", "/api/inference", [("content-type", "application/json")], posting w, .v4 [127, 0, 0, 1]⟩

theorem posting_eq (w : Bytes) : posting w = openBrace :: quote :: (stringTail "model_id" ++
    colon :: (valueBytes (string "m") ++ comma :: quote ::
      (stringTail "input" ++ colon :: (w ++ [closeBrace])))) := by
  have hstart : encode "\x7b\"model_id\":\"m\",\"input\":" = openBrace :: quote ::
      (stringTail "model_id" ++ colon :: (valueBytes (string "m") ++ comma :: quote ::
        (stringTail "input" ++ [colon]))) := by decide +kernel
  rw [posting, hstart]
  simp only [List.cons_append, List.append_assoc, List.nil_append]

theorem length_posting (w : Bytes) : (posting w).length = w.length + 25 := by
  have hmodel : (stringTail "model_id").length = 9 := rfl
  have htext : (valueBytes (string "m")).length = 3 := rfl
  have hinput : (stringTail "input").length = 6 := rfl
  simp only [posting_eq, hmodel, htext, hinput, List.length_cons, List.length_append,
    List.length_nil]
  omega

section

variable {w : Bytes} {v : Json} (hv : ∀ fuel, w.length ≤ fuel →
  value (fuel + 1) (depthLimit - 1) (w ++ [closeBrace]) = .ok (v, [closeBrace]))

include hv

theorem readFront_posting :
    InferenceBody.shape.readFront (posting w) = .ok ([string "m", v], []) := by
  obtain ⟨steps, hsteps⟩ : ∃ n, stepsFor (posting w) = n + 3 := ⟨_, by rw [posting_eq]; rfl⟩
  have hfuel := hsteps
  rw [stepsFor, length_posting] at hfuel
  have hname : (stringTail "model_id").length = 9 := rfl
  have hinput : (stringTail "input").length = 6 := rfl
  have htext : (stringTail "m").length = 2 := rfl
  have hany : Gives (MemberKind.any.read (steps + 1) (depthLimit - 1) (w ++ [closeBrace])) True v
      [closeBrace] := .of_ok trivial (hv steps (by omega))
  have hstop : Gives (InferenceBody.shape.readMembers (depthLimit - 1) (steps + 1) false
      [some (string "m"), some v] [closeBrace]) True [string "m", v] [] := .of_ok trivial rfl
  have hsecond := InferenceBody.shape.readMembers_step [some (string "m"), none] "input" (i := 1)
    (nextName_comma _) (by omega) rfl rfl hany hstop
  have hfirst := InferenceBody.shape.readMembers_step [none, none] "model_id" (v := string "m")
    (i := 0) (nextName_first _) (by omega) rfl rfl
    (.of_ok trivial (read_text _ _ (by omega))) hsecond
  rw [posting_eq] at hsteps ⊢
  rw [Shape.readFront, skipBlank_cons (by decide)]
  simp only [↓reduceIte, hsteps]
  exact hfirst.ok (by simp)

theorem ofRequest_asking (hlength : (posting w).length ≤ InferenceBody.limit) :
    InferenceBody.ofRequest (asking w) = .ok ⟨"m", v⟩ := by
  have hjson : hasJsonBody (asking w) = true := by
    show hasJsonBody (asking []) = true
    decide +kernel
  have hbody : (asking w).body = posting w := rfl
  unfold InferenceBody.ofRequest
  rw [hjson, hbody, readFront_posting hv, if_neg (Nat.not_lt.2 hlength)]
  rfl

end

/-- The one peer that the node knows. -/
def neighbour : PeerId := ⟨.identity, []⟩

def lone : Services Unit where
  query _ := (⟨0, .error (.registry "")⟩, ())
  upload _ _ := (.ok "", ())
  peers _ := [neighbour]
  ask _ _ _ := ⟨none, .error .closed⟩

/-- What the node does when it is asked for the input whose text is `w`. -/
def deedsFor (w : Bytes) : List Effect :=
  (respond ⟨⟨1, second⟩, ⟨"", 1, second⟩, true, ⟨⟨1, .zero⟩, second, second⟩⟩ lone ⟨0, 0, "id"⟩
    (asking w) ⟨.empty, .fresh, ()⟩).2.effects

theorem broadcast_mem_deedsFor {w : Bytes} {v : Json}
    (hlength : (posting w).length ≤ InferenceBody.limit)
    (hv : ∀ fuel, w.length ≤ fuel →
      value (fuel + 1) (depthLimit - 1) (w ++ [closeBrace]) = .ok (v, [closeBrace])) :
    .broadcast [(neighbour, ⟨"id", "m", v⟩)] ∈ deedsFor w := by
  have hroute : Route.ofPath? (pathOf (asking w).target) = some .inference := by
    show Route.ofPath? (pathOf "/api/inference") = some .inference
    decide +kernel
  have hmethod : (asking w).method ∈ Route.inference.methods := List.mem_cons_self
  refine (broadcast_mem_respond hroute hmethod ?_).2
    ⟨rfl, Nat.le_refl 1, List.cons_ne_nil _ _, _, ofRequest_asking hv hlength, rfl⟩
  show (Limiter.check ⟨1, second⟩ .empty (.v4 [127, 0, 0, 1]) 0).2 = .ok ()
  decide

/-! ## What arrives -/

section

variable {w : Bytes} {v : Json}

/-- The text of `n` items after the first. -/
def furtherItems (w : Bytes) : Nat → Bytes
  | 0 => []
  | n + 1 => comma :: (w ++ furtherItems w n)

theorem length_furtherItems (w : Bytes) (n : Nat) :
    (furtherItems w n).length = n * (w.length + 1) := by
  induction n with
  | zero => simp [furtherItems]
  | succ n ih =>
    rw [furtherItems, List.length_cons, List.length_append, ih, Nat.succ_mul]
    omega

/-- The text of a list of one number, `n + 1` times. -/
def listText (w : Bytes) (n : Nat) : Bytes :=
  openBracket :: (w ++ (furtherItems w n ++ [closeBracket]))

theorem stops_furtherItems (w : Bytes) (n : Nat) (t : Bytes) :
    Stops (furtherItems w n ++ closeBracket :: t) := by
  cases n with
  | zero => exact stops_cons (by decide) t
  | succ n => exact stops_cons (by decide) _

theorem items_furtherItems (hstart : StartsNumber w) (hw : number false w = .ok (v, []))
    (depth n : Nat) : ∀ (fuel : Nat) (acc : List Json) (t : Bytes),
    acc.isEmpty = false → n < fuel →
      items fuel depth acc (furtherItems w n ++ closeBracket :: t) =
        .ok (array (acc.reverse ++ List.replicate n v), t) := by
  induction n with
  | zero =>
    rintro (_ | fuel) acc t hacc hfuel
    · omega
    · rw [furtherItems, List.nil_append, items, nextItem_stop, List.replicate_zero, List.append_nil]
  | succ n ih =>
    rintro (_ | _ | fuel) acc t hacc hfuel
    · omega
    · omega
    have hvalue := value_of_number hstart hw (stops_furtherItems w n t) fuel depth
    have hrest := ih (fuel + 1) (v :: acc) t rfl (by omega)
    have hnext := nextItem_comma
      (hstart.opensValue.append (furtherItems w n ++ closeBracket :: t))
    rw [furtherItems, List.cons_append, List.append_assoc, items, hacc, hnext]
    simp only [hvalue, hrest, List.reverse_cons, List.append_assoc, List.singleton_append,
      List.replicate_succ]

theorem length_listText (w : Bytes) (n : Nat) :
    (listText w n).length = n * (w.length + 1) + w.length + 2 := by
  simp only [listText, List.length_cons, List.length_append, length_furtherItems, List.length_nil]
  omega

theorem value_listText (hstart : StartsNumber w) (hw : number false w = .ok (v, []))
    {fuel depth n : Nat} (hd : 1 < depth) (hfuel : n + 2 < fuel) (t : Bytes) :
    value (fuel + 1) depth (listText w n ++ t) = .ok (array (List.replicate (n + 1) v), t) := by
  obtain ⟨fuel, rfl⟩ : ∃ k, fuel = k + 2 := ⟨fuel - 2, by omega⟩
  have hvalue := value_of_number hstart hw (stops_furtherItems w n t) fuel (depth - 1)
  have hrest := items_furtherItems hstart hw (depth - 1) n (fuel + 1) [v] t rfl (by omega)
  have hnext := nextItem_first (hstart.opensValue.append (furtherItems w n ++ closeBracket :: t))
  have htext : listText w n ++ t =
      openBracket :: (w ++ (furtherItems w n ++ closeBracket :: t)) := by
    simp [listText]
  rw [htext, value_openBracket, if_neg (by omega), items, List.isEmpty_nil, hnext]
  simp only [hvalue, hrest, List.reverse_singleton, List.singleton_append, List.replicate_succ]

theorem length_itemsBytes_replicate (v : Json) (n : Nat) :
    (itemsBytes (List.replicate n v)).length = n * ((valueBytes v).length + 1) := by
  induction n with
  | zero => simp [itemsBytes, itemsChars]
  | succ n ih =>
    rw [List.replicate_succ, itemsBytes_cons, List.length_cons, List.length_append, ih,
      Nat.succ_mul]
    omega

theorem length_valueBytes_replicate (v : Json) (n : Nat) :
    (valueBytes (array (List.replicate (n + 1) v))).length =
      n * ((valueBytes v).length + 1) + (valueBytes v).length + 2 := by
  rw [List.replicate_succ, valueBytes_array]
  simp only [List.length_cons, List.length_append, length_itemsBytes_replicate, List.length_nil]
  omega

end

/-! ## What does not arrive -/

/-- The double `1e15`, which takes 18 bytes to write. -/
def quadrillion : Json := .double ⟨0x430C6BF526340000⟩

/-- A list of them grows almost fourfold on its way to the peers. -/
theorem broadcast_quadrillions {n : Nat} (hn : 5 * n + 31 ≤ InferenceBody.limit) :
    ∃ q : Request, .broadcast [(neighbour, q)] ∈ deedsFor (listText (encode "1e15") n) ∧
      19 * n ≤ (encode q.render).length := by
  have hread : number false (encode "1e15") = .ok (quadrillion, []) := by
    show scaled false 1 15 [] = _
    rw [scaled, scale]
    rfl
  have hsize : (encode "1e15").length = 4 := rfl
  have hv : (valueBytes quadrillion).length = 18 := by decide +kernel
  refine ⟨⟨"id", "m", .array (List.replicate (n + 1) quadrillion)⟩,
    broadcast_mem_deedsFor ?_ fun fuel hfuel => ?_, ?_⟩
  · rw [length_posting, length_listText, hsize]
    omega
  · rw [length_listText, hsize] at hfuel
    exact value_listText ⟨_, _, rfl, rfl⟩ hread (by decide) (by omega) _
  · rw [length_render, length_valueBytes_replicate, hv]
    omega

end Quorum.Api
