import Mathlib
import Quorum.Message.Reader
import Quorum.Proofs.Json.RoundTrip

/-!
# Messages are read back

A message's text is that of an object with its members in a fixed order
(`encode_renderMembers`). The reader takes the members one after another, each as a value of its
own, so a message is read back exactly if its payload is not too deep (`Request.read_gives`,
`Response.read_gives`). The kind of a response is read first and nothing that follows changes it
(`Response.kind_of_read`).
-/

namespace Quorum

open Json Ascii Utf8

namespace Json

/-! ## Members of a record -/

theorem expectText_string {expected s : String} {fuel : Nat} (t : Bytes)
    (h : (stringTail s).length ≤ fuel) :
    expectText expected fuel (valueBytes (string s) ++ t) = .ok (s, t) := by
  rw [valueBytes_string, List.cons_append, expectText, skipBlank_cons (by decide)]
  simp only [↓reduceIte, text_stringTail t h]

theorem read_text {s : String} {fuel : Nat} (depth : Nat) (t : Bytes)
    (h : (stringTail s).length ≤ fuel) :
    MemberKind.text.read fuel depth (valueBytes (string s) ++ t) = .ok (string s, t) := by
  rw [MemberKind.read, expectText_string t h]
  rfl

/-- A member that the record knows and has not read yet, and the members after it. -/
theorem Shape.readMembers_step (shape : Shape) (slots : Slots) (name : String) {v : Json}
    {depth fuel i : Nat} {first : Bool} {kind : MemberKind} {s t t' r : Bytes}
    {values : List Json} {fits fits' : Prop}
    (hnext : nextName first s = .ok (.more (stringTail name ++ colon :: t)))
    (hname : (stringTail name).length ≤ fuel) (hfind : find? name 0 shape.members = some (i, kind))
    (hslot : slots.getD i none = none) (hv : Gives (kind.read fuel depth t) fits v t')
    (hrest : Gives (shape.readMembers depth fuel false (slots.set i (some v)) t') fits' values r) :
    Gives (shape.readMembers depth (fuel + 1) first slots s) (fits ∧ fits') values r := by
  have hcolon : colonAfter (colon :: t) = .ok t := rfl
  rw [Shape.readMembers, hnext]
  simp only [text_stringTail _ hname, hfind, hslot, Option.isSome_none, Bool.false_eq_true,
    ↓reduceIte, hcolon]
  exact hv.andThen (fun h => by simp only [h]) (fun f h => ⟨_, by simp only [h]; rfl⟩) hrest

end Json

/-! ## Requests -/

namespace Request

def members (m : Request) : List (String × Json) :=
  [("request_id", .string m.id), ("model_id", .string m.model), ("input", m.input)]

theorem encode_render (m : Request) : Utf8.encode m.render = valueBytes (.object m.members) :=
  encode_renderMembers m.members

/-- The text of a request is read as its members are, whatever is read for its input. -/
theorem readFront_input (m : Request) {v : Json} {fits : Prop}
    (hinput : ∀ fuel, 2 * (valueBytes m.input).length ≤ fuel + 1 →
      Gives (value (fuel + 1) (depthLimit - 1) (valueBytes m.input ++ [closeBrace])) fits v
        [closeBrace]) :
    Gives (shape.readFront (valueBytes (.object m.members))) fits
      [.string m.id, .string m.model, v] [] := by
  have hbytes : valueBytes (.object m.members) = openBrace :: quote ::
      (stringTail "request_id" ++ colon :: (valueBytes (.string m.id) ++ comma :: quote ::
        (stringTail "model_id" ++ colon :: (valueBytes (.string m.model) ++ comma :: quote ::
          (stringTail "input" ++ colon :: (valueBytes m.input ++ [closeBrace])))))) := by
    rw [members, valueBytes_object, membersBytes_cons, membersBytes_cons]
    simp [memberBytes, membersBytes, membersChars]
  obtain ⟨steps, hsteps⟩ : ∃ n, stepsFor (valueBytes (.object m.members)) = n + 4 :=
    ⟨_, by rw [hbytes]; rfl⟩
  have hlength := hsteps
  simp only [stepsFor, hbytes, valueBytes_string, List.length_cons, List.length_append,
    List.length_nil] at hlength
  have hany : Gives (MemberKind.any.read (steps + 1) (depthLimit - 1)
      (valueBytes m.input ++ [closeBrace])) fits v [closeBrace] := hinput steps (by omega)
  have hstop : Gives (shape.readMembers (depthLimit - 1) (steps + 1) false
      [some (.string m.id), some (.string m.model), some v] [closeBrace]) True
      [.string m.id, .string m.model, v] [] := .of_ok trivial rfl
  have hthird := shape.readMembers_step [some (.string m.id), some (.string m.model), none]
    "input" (i := 2) (nextName_comma _) (by omega) rfl rfl hany hstop
  have hsecond := shape.readMembers_step [some (.string m.id), none, none] "model_id"
    (v := .string m.model) (i := 1) (nextName_comma _) (by omega) rfl rfl
    (.of_ok trivial (read_text _ _ (by omega))) hthird
  have hfirst := shape.readMembers_step [none, none, none] "request_id"
    (v := .string m.id) (i := 0) (nextName_first _) (by omega) rfl rfl
    (.of_ok trivial (read_text _ _ (by omega))) hsecond
  rw [hbytes] at hsteps ⊢
  rw [Shape.readFront, skipBlank_cons (by decide)]
  simp only [↓reduceIte, hsteps]
  exact hfirst.congr (by simp)

/-- What is read of a request's text is the request, with what is read for its input. -/
theorem read_input (m : Request) {v : Json} {fits : Prop}
    (hinput : ∀ fuel, 2 * (valueBytes m.input).length ≤ fuel + 1 →
      Gives (value (fuel + 1) (depthLimit - 1) (valueBytes m.input ++ [closeBrace])) fits v
        [closeBrace]) :
    (fits → read (Utf8.encode m.render) = .ok { m with input := v }) ∧
      (¬ fits → ∃ f, read (Utf8.encode m.render) = .error f) := by
  have hfront := m.readFront_input hinput
  rw [read, encode_render]
  refine ⟨fun hfits => ?_, fun hfits => ?_⟩
  · rw [hfront.ok hfits]
    rfl
  · obtain ⟨f, hf⟩ := hfront.fault hfits
    rw [hf]
    exact ⟨f, rfl⟩

/-- **A request is read back unless its input is too deep.** -/
theorem read_gives (m : Request) (hv : Valid m.input) (hx : ∀ x ∈ m.input.doubles, ReadsBack x) :
    (m.input.depth ≤ 126 → read (Utf8.encode m.render) = .ok m) ∧
      (126 < m.input.depth → ∃ f, read (Utf8.encode m.render) = .error f) := by
  obtain ⟨hok, hfault⟩ := m.read_input fun fuel hfuel =>
    value_gives m.input fuel (depthLimit - 1) hv hx (stops_cons (by decide) []) (by decide) hfuel
  exact ⟨fun hd => hok (Nat.lt_succ_of_le hd), fun hd => hfault (by rw [depthLimit]; omega)⟩

end Request

/-! ## Responses -/

namespace Response

def kind : Response → Variant
  | output _ _ => .output
  | refusal _ _ => .refusal

/-- What a response carries behind its id. -/
def payload : Response → Json
  | output _ value => value
  | refusal _ message => .string message

def members (m : Response) : List (String × Json) :=
  [("request_id", .string m.id), (m.kind.payload.name, m.payload)]

theorem encode_render (m : Response) :
    Utf8.encode m.render = valueBytes (.object (("type", .string m.kind.name) :: m.members)) := by
  have htext := encode_renderMembers (("type", .string m.kind.name) :: m.members)
  cases m <;> exact htext

theorem Variant.read_name (v : Variant) {fuel : Nat} (t : Bytes)
    (h : (stringTail v.name).length ≤ fuel) :
    Variant.read fuel (valueBytes (.string v.name) ++ t) = .ok (v, t) := by
  rw [Variant.read, expectText_string t h]
  cases v <;> rfl

/-- The member that names the kind. -/
theorem readMembers_type (v : Variant) {fuel : Nat} (acc : List (String × Json)) (t : Bytes)
    (hname : (stringTail "type").length ≤ fuel) (hkind : (stringTail v.name).length ≤ fuel) :
    readMembers (fuel + 1) true none acc (quote :: (memberBytes "type" (.string v.name) ++ t)) =
      readMembers fuel false (some v) acc t := by
  have hcolon : colonAfter (colon :: (valueBytes (.string v.name) ++ t)) =
      .ok (valueBytes (.string v.name) ++ t) := rfl
  rw [readMembers, nextName_first]
  simp only [memberBytes, List.append_assoc, List.cons_append, text_stringTail _ hname,
    Option.isSome_none, Bool.false_eq_true, ↓reduceIte, hcolon, Variant.read_name v t hkind]

/-- A member that does not name the kind, and the members after it. -/
theorem readMembers_step (name : String) {fuel : Nat} {kind : Option Variant}
    {acc : List (String × Json)} {s t r : Bytes} {v : Json} {w : Whole} {fits fits' : Prop}
    (hnext : nextName false s = .ok (.more (memberBytes name v ++ t)))
    (hname : (stringTail name).length ≤ fuel) (htype : name ≠ "type")
    (hv : Gives (value fuel (depthLimit - 1) (valueBytes v ++ t)) fits v t)
    (hrest : Gives (readMembers fuel false kind ((name, v) :: acc) t) fits' w r) :
    Gives (readMembers (fuel + 1) false kind acc s) (fits ∧ fits') w r := by
  have hcolon : colonAfter (colon :: (valueBytes v ++ t)) = .ok (valueBytes v ++ t) := rfl
  rw [readMembers, hnext]
  simp only [memberBytes, List.append_assoc, List.cons_append, text_stringTail _ hname, htype,
    ↓reduceIte, hcolon]
  exact hv.andThen (fun h => by simp only [h]) (fun f h => ⟨_, by simp only [h]; rfl⟩) hrest

theorem readMembers_gives (kind : Variant) : ∀ (ms : List (String × Json)) (fuel : Nat)
    (acc : List (String × Json)) (r : Bytes), (∀ m ∈ ms, m.1 ≠ "type") → ValidMembers ms →
    (∀ x ∈ doublesMembers ms, ReadsBack x) → 2 * (membersBytes ms).length ≤ fuel →
      Gives (readMembers (fuel + 1) false (some kind) acc (membersBytes ms ++ closeBrace :: r))
        (depthMembers ms < depthLimit - 1) (.named kind (acc.reverse ++ ms)) r
  | [], fuel, acc, r, _, _, _, _ => by
    refine .of_ok (by decide) ?_
    show readMembers (fuel + 1) false (some kind) acc (closeBrace :: r) = _
    rw [readMembers, nextName_stop, List.append_nil]
  | (name, v) :: ms, fuel, acc, r, htype, hv, hx, hfuel => by
    rw [membersBytes_cons] at hfuel ⊢
    simp only [List.length_cons, List.length_append, memberBytes] at hfuel
    obtain ⟨fuel, rfl⟩ : ∃ k, fuel = k + 1 := ⟨fuel - 1, by omega⟩
    rw [doublesMembers, List.forall_mem_append] at hx
    have hfirst := value_gives v fuel (depthLimit - 1) hv.1 hx.1 (stops_members ms r) (by decide)
      (by omega)
    have hrest := readMembers_gives kind ms fuel ((name, v) :: acc) r
      (fun m hm => htype m (List.mem_cons_of_mem _ hm)) hv.2 hx.2 (by omega)
    rw [List.reverse_cons, List.append_assoc, List.singleton_append] at hrest
    simp only [List.cons_append, List.append_assoc]
    exact (readMembers_step name (nextName_comma _) (by omega)
      (htype _ List.mem_cons_self) hfirst hrest).congr max_lt_iff.symm

theorem response_named (m : Response) : (Whole.named m.kind m.members).response = .ok m := by
  cases m <;> rfl

/-- The text of a response up to its kind, whatever follows. -/
theorem bytes_eq (m : Response) :
    valueBytes (.object (("type", .string m.kind.name) :: m.members)) =
      openBrace :: quote :: (memberBytes "type" (.string m.kind.name) ++
        (membersBytes m.members ++ [closeBrace])) := valueBytes_object _ _ _

/-- The kind is read first, and enough steps are left for the members that follow. -/
theorem readWhole_eq (m : Response) : ∃ steps,
    2 * (membersBytes m.members).length ≤ steps ∧
      readWhole (valueBytes (.object (("type", .string m.kind.name) :: m.members))) =
        readMembers (steps + 1) false (some m.kind) []
          (membersBytes m.members ++ [closeBrace]) := by
  obtain ⟨steps, hsteps⟩ :
      ∃ n, stepsFor (valueBytes (.object (("type", .string m.kind.name) :: m.members))) = n + 2 :=
    ⟨_, by rw [bytes_eq]; rfl⟩
  have hlength := hsteps
  simp only [stepsFor, bytes_eq, memberBytes, valueBytes_string, List.length_cons,
    List.length_append, List.length_nil] at hlength
  refine ⟨steps, by omega, ?_⟩
  rw [bytes_eq] at hsteps ⊢
  rw [readWhole, skipBlank_cons (by decide)]
  simp only [↓reduceIte, hsteps]
  exact readMembers_type m.kind [] _ (by omega) (by omega)

/-- **A response is read back unless its payload is too deep.** -/
theorem read_gives (m : Response) (hv : Valid m.payload)
    (hx : ∀ x ∈ m.payload.doubles, ReadsBack x) :
    (m.payload.depth ≤ 126 → read (Utf8.encode m.render) = .ok m) ∧
      (126 < m.payload.depth → ∃ f, read (Utf8.encode m.render) = .error f) := by
  obtain ⟨steps, hsteps, hwhole⟩ := readWhole_eq m
  have htype : ∀ p ∈ m.members, p.1 ≠ "type" := by cases m <;> simp [members, kind, Variant.payload]
  have hmembers := readMembers_gives m.kind m.members steps [] [] htype
    ⟨trivial, hv, trivial⟩ (by simpa [members, doublesMembers, doubles] using hx) hsteps
  have hdepth : depthMembers m.members = m.payload.depth := by
    simp [members, depthMembers, Json.depth]
  rw [hdepth] at hmembers
  rw [read, encode_render, hwhole]
  refine ⟨fun hd => ?_, fun hd => ?_⟩
  · rw [hmembers.ok (by rw [depthLimit]; omega), List.reverse_nil, List.nil_append]
    simp only [response_named]
    rfl
  · obtain ⟨f, hf⟩ := hmembers.fault (by rw [depthLimit]; omega)
    rw [hf]
    exact ⟨f, rfl⟩

/-! ## Kinds -/

def Whole.kind : Whole → Variant
  | .named kind _ | .ordered kind _ => kind

/-- A kind that was read stays. -/
theorem kind_of_readMembers {kind : Variant} {w : Whole} {t : Bytes} :
    ∀ {fuel : Nat} {first : Bool} {acc : List (String × Json)} {s : Bytes},
      readMembers fuel first (some kind) acc s = .ok (w, t) → w.kind = kind
  | fuel + 1, first, acc, s, h => by
    unfold readMembers at h
    split at h
    · cases h
    · cases h
      rfl
    · split at h
      · cases h
      · split at h
        · cases h
        · split at h
          · cases h
          · split at h
            · cases h
            · exact kind_of_readMembers h

theorem Whole.kind_of_response {w : Whole} {m : Response} (h : w.response = .ok m) :
    m.kind = w.kind := by
  have hvalues : ∀ {v : Variant} {values : List Json}, ofValues v values = some m → m.kind = v := by
    intro v values h
    unfold ofValues at h
    split at h <;> cases h <;> rfl
  unfold Whole.response at h
  cases w with
  | named kind ms | ordered kind ms =>
    dsimp only at h
    split at h
    · cases h
    · split at h
      · rename_i hr
        cases h
        exact hvalues hr
      · cases h

/-- **What is read from the text of a response is of its kind**, whatever it carries. -/
theorem kind_of_read {m m' : Response} (h : read (Utf8.encode m.render) = .ok m') :
    m'.kind = m.kind := by
  obtain ⟨steps, -, hwhole⟩ := readWhole_eq m
  rw [read, encode_render, hwhole] at h
  split at h
  · cases h
  · rename_i w rest hw
    split at h
    · cases h
    · rename_i r hr
      split at h
      · cases h
      · cases h
        rw [Whole.kind_of_response hr, kind_of_readMembers hw]

end Response

end Quorum
