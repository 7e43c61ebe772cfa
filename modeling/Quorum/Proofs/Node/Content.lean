import Mathlib
import Quorum.Node.Running
import Quorum.Proofs.Api.Content
import Quorum.Proofs.Store

/-!
# Payloads over the life of a node

A node that keeps payloads in memory answers calls and requests of peers, and time passes
(`Happening`). A happening leaves in the store the payloads that it uploads (`store_next`), so the
store of a node that has lived is the old one, filled with all that was uploaded since
(`store_live`). With that, `content_spec` follows a payload from the text of a body to the store of
any later time.
-/

namespace Quorum.Node

open Json (Document Alike collapse)
open Api (Bare Effect Payload Processed Route Stage payload?)

variable {σ : Type}

/-- A request to the API when it reaches the node; `unixStart` is when the clock began. -/
structure Call where
  unixStart : Time
  id : String
  request : Api.HttpRequest

/-- What can happen to a node. -/
inductive Happening where
  | call (c : Call)
  /-- Station `i` sends a request. -/
  | ask (i : Nat) (request : Request)
  | pass (t : Time)
  /-- Something else happens in the network. -/
  | network (m : Mesh)

def store (n : Node σ) : Store := n.api.outside.store

def Call.moment (c : Call) (n : Node σ) : Api.Moment :=
  ⟨n.mesh.clock, c.unixStart + n.mesh.clock, c.id⟩

section

variable (client : Post → σ → PostResult × σ)

/-- All stages for processing are passed by the call, which is a `POST` to that route. -/
def Call.Passes (n : Node σ) (c : Call) : Prop :=
  Api.pathOf c.request.target = "/api/process" ∧ c.request.method = "POST" ∧
    (Stage.performAll (settings n.config) (n.services client) (c.moment n) c.request
      Route.process.order (.begin n.api)).1 = .ok ()

def Call.response (n : Node σ) (c : Call) : Api.HttpResponse :=
  (n.serve client c.unixStart c.id c.request).1

/-- The node after it has answered. -/
def Call.after (n : Node σ) (c : Call) : Node σ :=
  (n.serve client c.unixStart c.id c.request).2

/-- What a call does outside of the node. -/
def Call.effects (n : Node σ) (c : Call) : List Effect :=
  (Api.respond (settings n.config) (n.services client) (c.moment n) c.request n.api).2.effects

/-- The node after a happening. -/
def Happening.next (n : Node σ) : Happening → Node σ
  | call c => c.after client n
  | ask i request => (n.serveStation client i request).2
  | pass t => n.pass t
  | network m => n.withMesh m

/-- The payloads that are uploaded in a happening. -/
def Happening.uploads (n : Node σ) : Happening → List Json
  | call c => (c.effects client n).filterMap Effect.payload?
  | _ => []

/-- The node after one happening and the next. -/
def live : Node σ → List Happening → Node σ
  | n, [] => n
  | n, h :: hs => (h.next client n).live hs

/-- The payloads that are uploaded over a time. -/
def uploads : Node σ → List Happening → List Json
  | _, [] => []
  | n, h :: hs => h.uploads client n ++ uploads (h.next client n) hs

end

variable {client : Post → σ → PostResult × σ} {n : Node σ} {c : Call}

/-! ## What does not change -/

theorem config_pass (n : Node σ) (t : Time) : (n.pass t).config = n.config := by
  unfold pass
  dsimp only
  split <;> rfl

theorem store_pass (n : Node σ) (t : Time) : (n.pass t).store = n.store := by
  unfold pass
  dsimp only
  split <;> rfl

theorem config_serveStation (n : Node σ) (i : Nat) (request : Request) :
    (n.serveStation client i request).2.config = n.config := by
  unfold serveStation
  split <;> rfl

theorem store_serveStation (n : Node σ) (i : Nat) (request : Request) :
    (n.serveStation client i request).2.store = n.store := by
  unfold serveStation
  split <;> rfl

theorem config_next (n : Node σ) (h : Happening) : (h.next client n).config = n.config := by
  cases h with
  | call c => exact config_pass _ _
  | ask i request => exact config_serveStation n i request
  | pass t => exact config_pass n t
  | network m => rfl

theorem config_live (n : Node σ) (hs : List Happening) : (n.live client hs).config = n.config := by
  induction hs generalizing n with
  | nil => rfl
  | cons h hs ih => exact (ih _).trans (config_next n h)

/-! ## What is uploaded -/

theorem upload_memory (hmemory : n.config.storage.ipfsUrl = none) (v : Json) (o : Outside σ) :
    upload client n.config v o =
      (.ok (Store.hashOf v), { o with store := (o.store.upload v).1 }) := by
  unfold upload
  rw [hmemory]
  dsimp only
  rw [Store.upload_hash]

theorem store_act (hmemory : n.config.storage.ipfsUrl = none) (o : Outside σ) (e : Effect) :
    ((n.services client).act o e).store = o.store.fill e.payload?.toList := by
  cases e with
  | query =>
    show (query client n.config n.registry o).2.store = o.store
    unfold query
    split <;> rfl
  | upload v =>
    show (upload client n.config v o).2.store = (o.store.upload v).1
    rw [upload_memory hmemory]
  | broadcast requests => rfl

theorem store_foldl_act (hmemory : n.config.storage.ipfsUrl = none) (effects : List Effect)
    (o : Outside σ) : (effects.foldl (n.services client).act o).store =
      o.store.fill (effects.filterMap Effect.payload?) := by
  induction effects generalizing o with
  | nil => rfl
  | cons e effects ih =>
    rw [List.foldl_cons, ih, store_act hmemory]
    cases h : e.payload? with
    | none => rw [List.filterMap_cons_none h]; rfl
    | some v => rw [List.filterMap_cons_some h]; rfl

theorem store_after (hmemory : n.config.storage.ipfsUrl = none) (c : Call) :
    (c.after client n).store =
      n.store.fill ((c.effects client n).filterMap Effect.payload?) := by
  refine (store_pass _ _).trans ?_
  show (Api.respond (settings n.config) (n.services client) (c.moment n) c.request
    n.api).2.state.outside.store = _
  rw [Api.outside_respond, store_foldl_act hmemory]
  rfl

theorem store_next (hmemory : n.config.storage.ipfsUrl = none) (h : Happening) :
    (h.next client n).store = n.store.fill (h.uploads client n) := by
  cases h with
  | call c => exact store_after hmemory c
  | ask i request => exact store_serveStation n i request
  | pass t => exact store_pass n t
  | network m => rfl

/-- **The store holds what was uploaded**, over any time that a node lives. -/
theorem store_live (hmemory : n.config.storage.ipfsUrl = none) (hs : List Happening) :
    (n.live client hs).store = n.store.fill (n.uploads client hs) := by
  induction hs generalizing n with
  | nil => rfl
  | cons h hs ih =>
    have hkeeps : (h.next client n).config.storage.ipfsUrl = none := by rw [config_next, hmemory]
    rw [live, uploads, ih hkeeps, store_next hmemory, Store.fill_append]

/-! ## A call that passes -/

/-- A call that passes is told the hash of its payload, and has it stored. -/
theorem serve_passes (hmemory : n.config.storage.ipfsUrl = none) (hc : c.Passes client n) :
    ∃ url content, payload? c.request.body = .ok content ∧
      Processed (c.response client n) url (content.map Store.hashOf) ∧
      (c.after client n).store = n.store.fill content.toList := by
  obtain ⟨hpath, hmethod, hpass⟩ := hc
  obtain ⟨url, content, hash, hcontent, hresponse, heffects, hname⟩ :=
    Api.respond_passed (n.services client) hpath hmethod hpass
  have hhash : hash = content.map Store.hashOf := by
    cases content with
    | none => exact hname
    | some v =>
      obtain ⟨name, hupload, rfl⟩ := hname
      have hname : .ok name = (upload client n.config v _).1 := hupload.symm
      rw [upload_memory hmemory] at hname
      cases hname
      rfl
  have huploads : (c.effects client n).filterMap Effect.payload? = content.toList := by
    rw [Call.effects, heffects]
    cases content <;> rfl
  refine ⟨url, content, hcontent, hhash ▸ hresponse, ?_⟩
  rw [store_after hmemory, huploads]

/-- A payload is found at any time after it was stored. -/
theorem get?_live (hmemory : n.config.storage.ipfsUrl = none) {v : Json} {later : List Happening}
    (hfind : n.store.find? (Store.hashOf v) = some (Utf8.encode v.render)) (hvalid : v.Valid)
    (hdepth : v.depth < Json.depthLimit) (hx : ∀ x ∈ v.doubles, Json.ReadsBack x)
    (hcollision : Store.NoCollision (v :: n.uploads client later)) :
    (n.live client later).store.get? (Store.hashOf v) = some v := by
  rw [store_live hmemory]
  exact Store.get?_of_find? (Store.find?_fill hfind hcollision) hvalid hdepth hx

/-- A node without peers and servers. -/
def lone : Node Unit where
  config := ⟨⟨[], Config.Peering.defaultListen, 256, 3600, 10, 30, false⟩, ⟨2, Double.ofNat 1, 60⟩,
    .default, .default, .default, .default⟩
  registry := none
  station := 0
  api := ⟨.empty, .fresh, ⟨.empty, .empty, ()⟩⟩
  nextSync := syncInterval
  log := []

/-- Nobody answers. -/
def unanswered (_ : Post) (world : Unit) : PostResult × Unit := (.failed, world)

def processing (body : Bytes) : Call :=
  ⟨0, "request", ⟨"POST", "/api/process", [], body, .unspecified⟩⟩

def seven : Call := processing (Utf8.encode "\x7b\"data\":7\x7d")

/-- The same with blanks and an escape. -/
def spaced : Call := processing (Utf8.encode "\x7b \"d\\u0061ta\" : 7 \x7d")

theorem document_seven : Document (.object [("data", .integer 7)]) seven.request.body := by
  have hname : Json.SpellsBytes (Utf8.encode "data") [0x64, 0x61, 0x74, 0x61, Ascii.quote] :=
    .plain (by decide) (.plain (by decide) (.plain (by decide) (.plain (by decide) .close)))
  have hvalue : Json.Spells (.integer 7) [0x37] := @Json.Spells.number [] [0x37] false _ nofun rfl
  have hmembers := @Json.SpellsMembers.member true [] [] _ [] _ _ "data" _ [] rfl nofun hname nofun
    hvalue (@Json.SpellsMembers.close false [] nofun)
  exact ⟨_, [], @Json.Spells.object [] _ _ nofun hmembers, nofun, by decide +kernel⟩

theorem document_spaced : Document (.object [("data", .integer 7)]) spaced.request.body := by
  have hblank : Json.Blanks [0x20] := List.forall_mem_singleton.2 (by decide)
  have hcode : Json.SpellsCode 'a' [0x30, 0x30, 0x36, 0x31] :=
    @Json.SpellsCode.single 0x30 0x30 0x36 0x31 0x61 (by decide) (by decide) (by decide)
  have hname : Json.SpellsBytes (Utf8.encode "data") [0x64, Ascii.backslash, Ascii.lowerU, 0x30,
      0x30, 0x36, 0x31, 0x74, 0x61, Ascii.quote] :=
    .plain (by decide) (.code hcode (.plain (by decide) (.plain (by decide) .close)))
  have hvalue : Json.Spells (.integer 7) [0x20, 0x37] :=
    @Json.Spells.number [0x20] [0x37] false _ hblank rfl
  have hmembers := @Json.SpellsMembers.member true [] [0x20] _ [0x20] _ _ "data" _ [] rfl hblank
    hname hblank hvalue (@Json.SpellsMembers.close false [0x20] hblank)
  exact ⟨_, [], @Json.Spells.object [] _ _ nofun hmembers, nofun, by decide +kernel⟩

end Quorum.Node
