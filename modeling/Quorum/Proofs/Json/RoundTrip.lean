import Mathlib
import Quorum.Proofs.Json.Numerals
import Quorum.Proofs.Json.Reading
import Quorum.Proofs.Json.Strings

/-!
# Values are read back

A valid value whose doubles are read back from their own texts is read back from its text, with
whatever follows left over, exactly if it is not too deep (`value_gives`). The reader takes two
steps for a byte at most, so it never runs out of them.
-/

namespace Quorum.Json

open Ascii Utf8
open Decimal (IsNumeric)

/-! ## Doubles of a value -/

mutual

def doubles : Json → List Double
  | double x => [x]
  | array items => doublesItems items
  | object members => doublesMembers members
  | _ => []

def doublesItems : List Json → List Double
  | [] => []
  | v :: rest => doubles v ++ doublesItems rest

def doublesMembers : List (String × Json) → List Double
  | [] => []
  | (_, v) :: rest => doubles v ++ doublesMembers rest

end

/-! ## Members in order -/

theorem foldl_pushMember {α : Type} : ∀ (ms acc : List (String × α)),
    ms.Pairwise (fun a b => a.1 < b.1) → (∀ a ∈ acc, ∀ m ∈ ms, a.1 < m.1) →
      ms.foldl pushMember acc = ms.reverse ++ acc
  | [], _, _, _ => rfl
  | m :: ms, acc, hms, hacc => by
    rw [List.pairwise_cons] at hms
    have hpush : pushMember acc m = m :: acc := by
      cases acc with
      | nil => rfl
      | cons a acc =>
        have hlt := hacc a List.mem_cons_self m List.mem_cons_self
        rw [pushMember, if_neg hlt.ne]
    rw [List.foldl_cons, hpush, foldl_pushMember ms (m :: acc) hms.2, List.reverse_cons,
      List.append_assoc, List.singleton_append]
    intro a ha m' hm'
    rcases List.mem_cons.1 ha with rfl | ha
    · exact hms.1 m' hm'
    · exact hacc a ha m' (List.mem_cons_of_mem _ hm')

/-- Members that are in order stay as they are. -/
theorem sortMembers_of_sorted {α : Type} {ms : List (String × α)}
    (h : ms.Pairwise fun a b => a.1 < b.1) : sortMembers ms = ms := by
  have hle : ms.Pairwise fun a b => (!decide (b.1 < a.1)) = true :=
    h.imp fun hlt => by rw [decide_eq_false hlt.asymm]; rfl
  rw [sortMembers, List.mergeSort_of_pairwise hle, foldl_pushMember ms [] h (by simp),
    List.append_nil, List.reverse_reverse]

/-! ## Bytes -/

def valueBytes (v : Json) : Bytes := encodeChars (chars v)

def itemsBytes (vs : List Json) : Bytes := encodeChars (itemsChars vs)

def membersBytes (ms : List (String × Json)) : Bytes := encodeChars (membersChars ms)

theorem valueBytes_string (s : String) : valueBytes (string s) = quote :: stringTail s :=
  encodeChars_stringChars s

theorem valueBytes_nil_array : valueBytes (array []) = [openBracket, closeBracket] := rfl

theorem valueBytes_nil_object : valueBytes (object []) = [openBrace, closeBrace] := rfl

theorem valueBytes_array (v : Json) (vs : List Json) :
    valueBytes (array (v :: vs)) =
      openBracket :: (valueBytes v ++ (itemsBytes vs ++ [closeBracket])) := by
  rw [valueBytes, chars, List.cons_append, List.cons_append, encodeChars_ascii (by decide),
    encodeChars_append, encodeChars_append, List.append_assoc]
  rfl

theorem itemsBytes_cons (v : Json) (vs : List Json) :
    itemsBytes (v :: vs) = comma :: (valueBytes v ++ itemsBytes vs) := by
  rw [itemsBytes, itemsChars, List.cons_append, encodeChars_ascii (by decide), encodeChars_append]
  rfl

/-- The bytes of a name behind its opening quote, and of its value. -/
def memberBytes (name : String) (v : Json) : Bytes := stringTail name ++ colon :: valueBytes v

theorem encodeChars_member (name : String) (v : Json) (cs : List Char) :
    encodeChars (stringChars name ++ ':' :: (chars v ++ cs)) =
      quote :: (memberBytes name v ++ encodeChars cs) := by
  rw [encodeChars_append, encodeChars_stringChars, encodeChars_ascii (by decide),
    encodeChars_append, memberBytes, List.append_assoc]
  rfl

theorem valueBytes_object (name : String) (v : Json) (ms : List (String × Json)) :
    valueBytes (object ((name, v) :: ms)) =
      openBrace :: quote :: (memberBytes name v ++ (membersBytes ms ++ [closeBrace])) := by
  rw [valueBytes, chars]
  simp only [List.cons_append, List.append_assoc]
  rw [encodeChars_ascii (by decide), encodeChars_member, encodeChars_append]
  rfl

theorem membersBytes_cons (name : String) (v : Json) (ms : List (String × Json)) :
    membersBytes ((name, v) :: ms) =
      comma :: quote :: (memberBytes name v ++ membersBytes ms) := by
  rw [membersBytes, membersChars]
  simp only [List.cons_append, List.append_assoc]
  rw [encodeChars_ascii (by decide), encodeChars_member]
  rfl

def memberChars (m : String × Json) : List Char := stringChars m.1 ++ ':' :: chars m.2

theorem intercalate_memberChars (first : List Char) (ms : List (String × Json)) :
    [','].intercalate (first :: ms.map memberChars) = first ++ membersChars ms := by
  induction ms generalizing first with
  | nil => simp [List.intercalate, membersChars]
  | cons m ms ih =>
    rw [List.map_cons, List.intercalate_cons_cons, ih, membersChars, memberChars]
    simp

/-- Members in the order given are written as an object with that order. -/
theorem renderMembers_toList (ms : List (String × Json)) :
    (renderMembers (ms.map fun m => (m.1, m.2.render))).toList = chars (object ms) := by
  have hpart : (String.toList ∘ fun m : String × String => (string m.1).render ++ ":" ++ m.2) ∘
      (fun m : String × Json => (m.1, m.2.render)) = memberChars := by
    funext m
    simp [render_toList, memberChars, chars]
  unfold renderMembers
  dsimp only
  rw [String.toList_append, String.toList_append, String.toList_intercalate, List.map_map,
    List.map_map, hpart]
  cases ms with
  | nil => rfl
  | cons m ms =>
    rw [List.map_cons, show ",".toList = [','] from rfl, intercalate_memberChars, chars,
      memberChars]
    simp

theorem encode_renderMembers (ms : List (String × Json)) :
    encode (renderMembers (ms.map fun m => (m.1, m.2.render))) = valueBytes (object ms) := by
  rw [encode_eq_encodeChars, renderMembers_toList, valueBytes]

/-! ## What comes next -/

/-- A text that a value may begin: no blank, and no bracket that would end a list. -/
def OpensValue (s : Bytes) : Prop := ∃ b t, s = b :: t ∧ isBlank b = false ∧ b ≠ closeBracket

theorem OpensValue.append {s : Bytes} (h : OpensValue s) (r : Bytes) : OpensValue (s ++ r) := by
  obtain ⟨b, t, rfl, hb, hne⟩ := h
  exact ⟨b, t ++ r, rfl, hb, hne⟩

theorem StartsNumber.opensValue {s : Bytes} (h : StartsNumber s) : OpensValue s := by
  obtain ⟨b, t, rfl, hb⟩ := h
  exact ⟨b, t, rfl, isBlank_of_isDigit hb, ne_of_isDigit hb rfl⟩

theorem opensValue_numeric {c : Char} (hc : IsNumeric c) (cs : List Char) :
    OpensValue (encodeChars (c :: cs)) := by
  have hrange := numeric_range hc
  have hbyte := utf8EncodeChar_ascii hrange.2
  refine ⟨_, _, encodeChars_ascii hrange.2 cs, isBlank_numeric hc (by rw [hbyte]; simp), ?_⟩
  intro h
  have hcode := congrArg UInt8.toNat h
  rw [UInt8.toNat_ofNat', Nat.mod_eq_of_lt (by omega)] at hcode
  exact ne_closeBracket hc (Char.toNat_inj.mp hcode)

theorem opensValue_valueBytes {v : Json} (hv : Valid v) : OpensValue (valueBytes v) := by
  cases v with
  | null => exact ⟨_, _, rfl, by decide, by decide⟩
  | bool b => cases b <;> exact ⟨_, _, rfl, by decide, by decide⟩
  | integer n =>
    obtain ⟨c, cs, h, hc⟩ := intText_head n
    rw [valueBytes, chars, h]
    exact opensValue_numeric hc cs
  | double x =>
    obtain ⟨c, cs, h, hc⟩ := doubleText_head hv
    rw [valueBytes, chars, h]
    exact opensValue_numeric hc cs
  | string s => exact ⟨_, _, valueBytes_string s, by decide, by decide⟩
  | array items =>
    cases items with
    | nil => exact ⟨_, _, rfl, by decide, by decide⟩
    | cons v vs => exact ⟨_, _, valueBytes_array v vs, by decide, by decide⟩
  | object members =>
    cases members with
    | nil => exact ⟨_, _, rfl, by decide, by decide⟩
    | cons m ms => exact ⟨_, _, valueBytes_object m.1 m.2 ms, by decide, by decide⟩

theorem nextItem_first {s : Bytes} (h : OpensValue s) : nextItem true s = .ok (.more s) := by
  obtain ⟨b, t, rfl, hb, hne⟩ := h
  rw [nextItem, skipBlank_cons hb]
  simp only [if_neg hne, ↓reduceIte]

theorem nextItem_comma {s : Bytes} (h : OpensValue s) :
    nextItem false (comma :: s) = .ok (.more s) := by
  obtain ⟨b, t, rfl, hb, hne⟩ := h
  rw [nextItem, skipBlank_cons (by decide)]
  simp only [skipBlank_cons hb, if_neg hne, show ¬ comma = closeBracket by decide,
    Bool.false_eq_true, ↓reduceIte]

theorem nextItem_stop (first : Bool) (s : Bytes) :
    nextItem first (closeBracket :: s) = .ok (.stop s) := rfl

theorem nextName_first (s : Bytes) : nextName true (quote :: s) = .ok (.more s) := rfl

theorem nextName_comma (s : Bytes) : nextName false (comma :: quote :: s) = .ok (.more s) := rfl

theorem nextName_stop (first : Bool) (s : Bytes) :
    nextName first (closeBrace :: s) = .ok (.stop s) := rfl

theorem stops_items (vs : List Json) (r : Bytes) : Stops (itemsBytes vs ++ closeBracket :: r) := by
  cases vs with
  | nil => exact stops_cons (by decide) r
  | cons v vs =>
    rw [itemsBytes_cons]
    exact stops_cons (by decide) _

theorem stops_members (ms : List (String × Json)) (r : Bytes) :
    Stops (membersBytes ms ++ closeBrace :: r) := by
  cases ms with
  | nil => exact stops_cons (by decide) r
  | cons m ms =>
    rw [membersBytes_cons]
    exact stops_cons (by decide) _

/-! ## Reading -/

/-- The reading gives `x` and leaves `rest` if `fits` holds, and fails if not. -/
structure Gives {α : Type} (r : Read α) (fits : Prop) (x : α) (rest : Bytes) : Prop where
  ok : fits → r = .ok (x, rest)
  fault : ¬ fits → ∃ f, r = .error f

theorem Gives.of_ok {α : Type} {r : Read α} {fits : Prop} {x : α} {rest : Bytes} (hfits : fits)
    (h : r = .ok (x, rest)) : Gives r fits x rest :=
  ⟨fun _ => h, fun hn => absurd hfits hn⟩

theorem Gives.congr {α : Type} {r : Read α} {fits fits' : Prop} {x : α} {rest : Bytes}
    (h : Gives r fits x rest) (hiff : fits ↔ fits') : Gives r fits' x rest :=
  ⟨fun h' => h.ok (hiff.2 h'), fun h' => h.fault (mt hiff.1 h')⟩

/-- A reading `y` that goes on where `r` stopped, and fails where `r` does. -/
theorem Gives.andThen {α β : Type} {r : Read α} {y y' : Read β} {fits fits' : Prop} {x : α}
    {t rest : Bytes} {w : β} (h : Gives r fits x t) (hok : r = .ok (x, t) → y = y')
    (hfault : ∀ f, r = .error f → ∃ f', y = .error f') (hnext : Gives y' fits' w rest) :
    Gives y (fits ∧ fits') w rest := by
  by_cases hf : fits
  · rw [hok (h.ok hf)]
    exact hnext.congr (by simp only [hf, true_and])
  · obtain ⟨f, hr⟩ := h.fault hf
    exact ⟨fun hfits => absurd hfits.1 hf, fun _ => hfault f hr⟩

/-- An item and the items after it. -/
theorem items_step {fuel depth : Nat} (acc : List Json) {s t t' r : Bytes} {v w : Json}
    {fits fits' : Prop} (hnext : nextItem acc.isEmpty s = .ok (.more t))
    (hv : Gives (value fuel depth t) fits v t')
    (hrest : Gives (items fuel depth (v :: acc) t') fits' w r) :
    Gives (items (fuel + 1) depth acc s) (fits ∧ fits') w r := by
  rw [items, hnext]
  exact hv.andThen (fun h => by simp only [h]) (fun f h => ⟨_, by simp only [h]; rfl⟩) hrest

/-- A member and the members after it. -/
theorem members_step {fuel depth : Nat} (acc : List (String × Json)) {s t r : Bytes}
    {name : String} {v w : Json} {fits fits' : Prop}
    (hnext : nextName acc.isEmpty s = .ok (.more (memberBytes name v ++ t)))
    (hname : (stringTail name).length ≤ fuel)
    (hv : Gives (value fuel depth (valueBytes v ++ t)) fits v t)
    (hrest : Gives (members fuel depth ((name, v) :: acc) t) fits' w r) :
    Gives (members (fuel + 1) depth acc s) (fits ∧ fits') w r := by
  have hcolon : colonAfter (colon :: (valueBytes v ++ t)) = .ok (valueBytes v ++ t) := rfl
  rw [members, hnext]
  simp only [memberBytes, List.append_assoc, List.cons_append, text_stringTail _ hname, hcolon]
  exact hv.andThen (fun h => by simp only [h]) (fun f h => ⟨_, by simp only [h]; rfl⟩) hrest

theorem value_openBracket (fuel depth : Nat) (s : Bytes) :
    value (fuel + 1) depth (openBracket :: s) =
      if depth ≤ 1 then .error (.before .tooDeep (openBracket :: s))
      else items fuel (depth - 1) [] s := rfl

theorem value_openBrace (fuel depth : Nat) (s : Bytes) :
    value (fuel + 1) depth (openBrace :: s) =
      if depth ≤ 1 then .error (.before .tooDeep (openBrace :: s))
      else members fuel (depth - 1) [] s := rfl

/-- What an open bracket or brace needs of the depth, and what the inside needs. -/
theorem Gives.enter {r : Read Json} {f : Fault} {inner depth : Nat} {v : Json} {rest : Bytes}
    (h : 1 < depth → Gives r (inner < depth - 1) v rest) :
    Gives (if depth ≤ 1 then .error f else r) (inner + 1 < depth) v rest := by
  split
  · exact ⟨fun h => by omega, fun _ => ⟨f, rfl⟩⟩
  · exact (h (by omega)).congr (by omega)

theorem ofMembers_sorted {ms : List (String × Json)} (h : ms.Pairwise fun a b => a.1 < b.1) :
    ofMembers ms = object ms := by
  rw [ofMembers, sortMembers_of_sorted h]

mutual

/-- **A value is read back from its text unless it is too deep.** -/
theorem value_gives : ∀ (v : Json) (fuel depth : Nat) {r : Bytes}, Valid v →
    (∀ x ∈ doubles v, ReadsBack x) → Stops r → 0 < depth → 2 * (valueBytes v).length ≤ fuel + 1 →
      Gives (value (fuel + 1) depth (valueBytes v ++ r)) (v.depth < depth) v r
  | null, _, _, _, _, _, _, hd, _ => .of_ok hd rfl
  | bool true, _, _, _, _, _, _, hd, _ => .of_ok hd rfl
  | bool false, _, _, _, _, _, _, hd, _ => .of_ok hd rfl
  | integer n, fuel, depth, _, hv, _, hr, hd, _ => .of_ok hd (value_integer hv hr fuel depth)
  | double x, fuel, depth, _, hv, hx, hr, hd, _ =>
    .of_ok hd (value_double hv (hx x List.mem_cons_self) hr fuel depth)
  | string s, fuel, depth, r, _, _, _, hd, hfuel => by
    rw [valueBytes_string, List.length_cons] at hfuel
    have htext := text_stringTail (s := s) (n := fuel) r (by omega)
    refine .of_ok hd ?_
    rw [valueBytes_string, List.cons_append, value, skipBlank_cons (by decide)]
    simp only [↓reduceIte, htext]
  | array [], fuel, depth, r, _, _, _, _, hfuel => by
    rw [valueBytes_nil_array] at hfuel ⊢
    simp only [List.length_cons, List.length_nil] at hfuel
    obtain ⟨fuel, rfl⟩ : ∃ k, fuel = k + 1 := ⟨fuel - 1, by omega⟩
    exact .enter fun h => .of_ok (by rw [depthItems]; omega) rfl
  | array (v :: vs), fuel, depth, r, hv, hx, _, _, hfuel => by
    rw [valueBytes_array] at hfuel ⊢
    simp only [List.length_cons, List.length_append, List.length_nil] at hfuel
    obtain ⟨fuel, rfl⟩ : ∃ k, fuel = k + 2 := ⟨fuel - 2, by omega⟩
    simp only [List.cons_append, List.append_assoc, List.nil_append]
    rw [value_openBracket, Json.depth, depthItems]
    refine .enter fun h => ?_
    rw [doubles, doublesItems, List.forall_mem_append] at hx
    have hfirst := value_gives v fuel (depth - 1) hv.1 hx.1 (stops_items vs r) (by omega)
      (by omega)
    have hrest := items_gives vs fuel (depth - 1) [v] r hv.2 hx.2 rfl (by omega) (by omega)
    have hnext := nextItem_first ((opensValue_valueBytes hv.1).append
      (itemsBytes vs ++ closeBracket :: r))
    exact (items_step [] hnext hfirst hrest).congr max_lt_iff.symm
  | object [], fuel, depth, r, _, _, _, _, hfuel => by
    rw [valueBytes_nil_object] at hfuel ⊢
    simp only [List.length_cons, List.length_nil] at hfuel
    obtain ⟨fuel, rfl⟩ : ∃ k, fuel = k + 1 := ⟨fuel - 1, by omega⟩
    refine .enter fun h => .of_ok (by rw [depthMembers]; omega) ?_
    show Except.ok (ofMembers [], r) = _
    rw [ofMembers_sorted .nil]
  | object ((name, v) :: ms), fuel, depth, r, hv, hx, _, _, hfuel => by
    rw [valueBytes_object] at hfuel ⊢
    simp only [List.length_cons, List.length_append, List.length_nil, memberBytes] at hfuel
    obtain ⟨fuel, rfl⟩ : ∃ k, fuel = k + 2 := ⟨fuel - 2, by omega⟩
    simp only [List.cons_append, List.append_assoc, List.nil_append]
    rw [value_openBrace, Json.depth, depthMembers]
    refine .enter fun h => ?_
    rw [doubles, doublesMembers, List.forall_mem_append] at hx
    have hfirst := value_gives v fuel (depth - 1) hv.2.1 hx.1 (stops_members ms r) (by omega)
      (by omega)
    have hrest := members_gives ms fuel (depth - 1) [(name, v)] r hv.2.2 hx.2 rfl (by omega)
      (by omega)
    rw [← ofMembers_sorted hv.1]
    have hnext := nextName_first (memberBytes name v ++ (membersBytes ms ++ closeBrace :: r))
    exact (members_step [] hnext (by omega) hfirst hrest).congr max_lt_iff.symm

theorem items_gives : ∀ (vs : List Json) (fuel depth : Nat) (acc : List Json) (r : Bytes),
    ValidItems vs → (∀ x ∈ doublesItems vs, ReadsBack x) → acc.isEmpty = false → 0 < depth →
      2 * (itemsBytes vs).length ≤ fuel →
      Gives (items (fuel + 1) depth acc (itemsBytes vs ++ closeBracket :: r))
        (depthItems vs < depth) (array (acc.reverse ++ vs)) r
  | [], fuel, depth, acc, r, _, _, hacc, hd, _ => by
    refine .of_ok hd ?_
    show items (fuel + 1) depth acc (closeBracket :: r) = _
    rw [items, nextItem_stop, List.append_nil]
  | v :: vs, fuel, depth, acc, r, hv, hx, hacc, hd, hfuel => by
    rw [itemsBytes_cons] at hfuel ⊢
    simp only [List.length_cons, List.length_append] at hfuel
    obtain ⟨fuel, rfl⟩ : ∃ k, fuel = k + 1 := ⟨fuel - 1, by omega⟩
    rw [doublesItems, List.forall_mem_append] at hx
    have hfirst := value_gives v fuel depth hv.1 hx.1 (stops_items vs r) hd (by omega)
    have hrest := items_gives vs fuel depth (v :: acc) r hv.2 hx.2 rfl hd (by omega)
    rw [List.reverse_cons, List.append_assoc, List.singleton_append] at hrest
    rw [List.cons_append, List.append_assoc]
    have hnext := nextItem_comma ((opensValue_valueBytes hv.1).append
      (itemsBytes vs ++ closeBracket :: r))
    exact (items_step acc (hacc ▸ hnext) hfirst hrest).congr max_lt_iff.symm

theorem members_gives : ∀ (ms : List (String × Json)) (fuel depth : Nat)
    (acc : List (String × Json)) (r : Bytes), ValidMembers ms →
    (∀ x ∈ doublesMembers ms, ReadsBack x) → acc.isEmpty = false → 0 < depth →
      2 * (membersBytes ms).length ≤ fuel →
      Gives (members (fuel + 1) depth acc (membersBytes ms ++ closeBrace :: r))
        (depthMembers ms < depth) (ofMembers (acc.reverse ++ ms)) r
  | [], fuel, depth, acc, r, _, _, hacc, hd, _ => by
    refine .of_ok hd ?_
    show members (fuel + 1) depth acc (closeBrace :: r) = _
    rw [members, nextName_stop, List.append_nil]
  | (name, v) :: ms, fuel, depth, acc, r, hv, hx, hacc, hd, hfuel => by
    rw [membersBytes_cons] at hfuel ⊢
    simp only [List.length_cons, List.length_append, memberBytes] at hfuel
    obtain ⟨fuel, rfl⟩ : ∃ k, fuel = k + 1 := ⟨fuel - 1, by omega⟩
    rw [doublesMembers, List.forall_mem_append] at hx
    have hfirst := value_gives v fuel depth hv.1 hx.1 (stops_members ms r) hd (by omega)
    have hrest := members_gives ms fuel depth ((name, v) :: acc) r hv.2 hx.2 rfl hd (by omega)
    rw [List.reverse_cons, List.append_assoc, List.singleton_append] at hrest
    simp only [List.cons_append, List.append_assoc]
    have hnext := nextName_comma (memberBytes name v ++ (membersBytes ms ++ closeBrace :: r))
    exact (members_step acc (hacc ▸ hnext) (by omega) hfirst hrest).congr max_lt_iff.symm

end

/-- **A text read alone gives its value back**, exactly down to the depth limit. -/
theorem read_render {v : Json} (hv : Valid v) (hx : ∀ x ∈ doubles v, ReadsBack x) :
    (v.depth < depthLimit → read (Utf8.encode v.render) = .ok v) ∧
      (depthLimit ≤ v.depth → ∃ f, read (Utf8.encode v.render) = .error f) := by
  have hvalue := value_gives v (2 * (valueBytes v).length + 1) depthLimit hv hx stops_nil
    (by decide) (by omega)
  rw [List.append_nil] at hvalue
  rw [encode_eq_encodeChars, render_toList, read, readFront]
  refine ⟨fun hd => ?_, fun hd => ?_⟩
  · show (value _ depthLimit (valueBytes v)).bind _ = _
    rw [stepsFor, ← valueBytes, hvalue.ok hd]
    rfl
  · obtain ⟨f, hf⟩ := hvalue.fault (Nat.not_lt.2 hd)
    refine ⟨f, ?_⟩
    show (value _ depthLimit (valueBytes v)).bind _ = _
    rw [stepsFor, ← valueBytes, hf]
    rfl

end Quorum.Json
