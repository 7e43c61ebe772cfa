import Mathlib
import Quorum.Proofs.Json.Text

/-!
# Equality of values

`eqv` compares values by content: numbers of one kind by what they are worth, arrays item by
item, objects by looking up each name. It is coarser than equality in one way only: the two
zeros among the doubles are worth the same. `zeroSigns` lists the signs of a value's zeros, and
valid values are equal exactly when `eqv` holds and these lists agree (`eq_iff`). As the text
determines a valid value, the same is true of texts (`render_eq_iff`).
-/

namespace Quorum.Json

mutual

/-- Whether two values are equal by content. -/
def eqv : Json → Json → Bool
  | null, null => true
  | bool b, bool c => b == c
  | integer m, integer n => m == n
  | double x, double y => x.eq y
  | string s, string t => s == t
  | array vs, array ws => eqvItems vs ws
  | object ms, object ns => ms.length == ns.length && eqvMembers ms ns
  | _, _ => false

def eqvItems : List Json → List Json → Bool
  | [], [] => true
  | v :: vs, w :: ws => eqv v w && eqvItems vs ws
  | _, _ => false

/-- Whether every member of the first list has an equal one of its name in the second. -/
def eqvMembers : List (String × Json) → List (String × Json) → Bool
  | [], _ => true
  | (name, v) :: rest, ns =>
    (match ns.find? (·.1 == name) with
      | some (_, w) => eqv v w
      | none => false) && eqvMembers rest ns

end

mutual

/-- The signs of the zeros among the doubles of a value, in the order of its text. -/
def zeroSigns : Json → List Bool
  | double x => if x.isZero then [x.isNegative] else []
  | array vs => zeroSignsItems vs
  | object ms => zeroSignsMembers ms
  | _ => []

def zeroSignsItems : List Json → List Bool
  | [] => []
  | v :: rest => zeroSigns v ++ zeroSignsItems rest

def zeroSignsMembers : List (String × Json) → List Bool
  | [] => []
  | (_, v) :: rest => zeroSigns v ++ zeroSignsMembers rest

end

/-- Whether two values are equal by content down to the signs of their zeros. -/
def same (v w : Json) : Bool := v.eqv w && v.zeroSigns == w.zeroSigns

/-! ## Doubles -/

theorem double_eq_self {x : Double} (hx : x.isFinite = true) : x.eq x = true := by
  have hm : x.magnitude < Double.infinite := of_decide_eq_true hx
  simp only [Double.eq, Double.isNaN, Bool.and_eq_true, Bool.not_eq_true', decide_eq_false_iff_not,
    beq_self_eq_true, and_true, and_self]
  omega

/-- Doubles that are worth the same have the same magnitude, and unless it is zero the same
sign. -/
theorem of_double_eq {x y : Double} (h : x.eq y = true) :
    x.magnitude = y.magnitude ∧ (x.magnitude = 0 ∨ x.isNegative = y.isNegative) := by
  have hr : x.rank = y.rank := by
    simp only [Double.eq, Bool.and_eq_true, beq_iff_eq] at h
    exact h.2
  unfold Double.rank at hr
  cases hx : x.isNegative <;> cases hy : y.isNegative <;>
    simp only [hx, hy, if_true, Bool.false_eq_true, if_false] at hr <;> simp <;> omega

/-- A comparison of two values that also settles them by the signs of their zeros. -/
def Settles (v w : Json) : Prop :=
  v.zeroSigns.length = w.zeroSigns.length ∧ (v.zeroSigns = w.zeroSigns → v = w)

theorem settles_double {x y : Double} (h : x.eq y = true) : Settles (double x) (double y) := by
  obtain ⟨hm, hs⟩ := of_double_eq h
  have hz : x.isZero = y.isZero := by simp only [Double.isZero, hm]
  simp only [Settles, zeroSigns, hz]
  cases hy : y.isZero with
  | true =>
    refine ⟨rfl, fun hsign => ?_⟩
    simp only [if_true, List.cons.injEq, and_true] at hsign
    rw [Double.ext_of_magnitude hsign hm]
  | false =>
    refine ⟨rfl, fun _ => ?_⟩
    have hne : x.magnitude ≠ 0 := by
      rw [← hz, Double.isZero, beq_eq_false_iff_ne] at hy
      exact hy
    rw [Double.ext_of_magnitude (hs.resolve_left hne) hm]

/-! ## Members -/

/-- Sorted members that all have a partner of their name carry the same names. -/
theorem names_eq {ms ns : List (String × Json)} (hms : ms.Pairwise fun a b => a.1 < b.1)
    (hns : ns.Pairwise fun a b => a.1 < b.1) (hlen : ms.length = ns.length)
    (hsub : ∀ m ∈ ms, m.1 ∈ ns.map Prod.fst) : ms.map Prod.fst = ns.map Prod.fst := by
  have hms' : (ms.map Prod.fst).Pairwise (· < ·) := List.pairwise_map.2 hms
  have hns' : (ns.map Prod.fst).Pairwise (· < ·) := List.pairwise_map.2 hns
  have hnodup : (ms.map Prod.fst).Nodup := hms'.imp fun h => ne_of_lt h
  have hsub' : ms.map Prod.fst ⊆ ns.map Prod.fst := by
    intro name hname
    obtain ⟨m, hm, rfl⟩ := List.mem_map.1 hname
    exact hsub m hm
  have hperm : (ms.map Prod.fst).Perm (ns.map Prod.fst) :=
    (List.subperm_of_subset hnodup hsub').perm_of_length_le (by simp [hlen])
  exact hperm.eq_of_pairwise (fun a b _ _ h h' => absurd h (lt_asymm h')) hms' hns'

theorem mem_names_of_eqvMembers {ms ns : List (String × Json)} (h : eqvMembers ms ns = true) :
    ∀ m ∈ ms, m.1 ∈ ns.map Prod.fst := by
  induction ms with
  | nil => simp
  | cons m ms ih =>
    obtain ⟨name, v⟩ := m
    rw [eqvMembers, Bool.and_eq_true] at h
    rintro m' hm'
    rcases List.mem_cons.1 hm' with rfl | hm'
    · cases hf : ns.find? (·.1 == name) with
      | none => simp [hf] at h
      | some n =>
        have hname := List.find?_some hf
        exact List.mem_map.2 ⟨n, List.mem_of_find?_eq_some hf, by simpa using hname⟩
    · exact ih h.2 m' hm'

/-- A member is not looked for behind a name that no member has. -/
theorem eqvMembers_skip {ms ns : List (String × Json)} {n : String × Json}
    (h : ∀ m ∈ ms, n.1 ≠ m.1) : eqvMembers ms (n :: ns) = eqvMembers ms ns := by
  induction ms with
  | nil => rfl
  | cons m ms ih =>
    obtain ⟨name, v⟩ := m
    have hne : (n.1 == name) = false := beq_eq_false_iff_ne.2 (h (name, v) List.mem_cons_self)
    rw [eqvMembers, eqvMembers, List.find?_cons_of_neg (by simp [hne]),
      ih fun m' hm' => h m' (List.mem_cons_of_mem _ hm')]

/-- Members that a list finds under their own names. -/
theorem eqvMembers_self {ms ns : List (String × Json)}
    (h : ∀ m ∈ ms, ns.find? (·.1 == m.1) = some m ∧ m.2.eqv m.2 = true) :
    eqvMembers ms ns = true := by
  induction ms with
  | nil => rfl
  | cons m ms ih =>
    obtain ⟨name, v⟩ := m
    obtain ⟨hfind, hv⟩ := h (name, v) List.mem_cons_self
    rw [eqvMembers, hfind, ih fun m' hm' => h m' (List.mem_cons_of_mem _ hm'), Bool.and_true]
    exact hv

theorem find_self {ms : List (String × Json)} (hms : ms.Pairwise fun a b => a.1 < b.1)
    {m : String × Json} (hm : m ∈ ms) : ms.find? (·.1 == m.1) = some m := by
  induction ms with
  | nil => cases hm
  | cons n ms ih =>
    rw [List.pairwise_cons] at hms
    rcases List.mem_cons.1 hm with rfl | hm
    · exact List.find?_cons_of_pos (by simp)
    · rw [List.find?_cons_of_neg (by simpa using ne_of_lt (hms.1 m hm)), ih hms.2 hm]

/-! ## Values -/

mutual

theorem eqv_self : ∀ v : Json, Valid v → v.eqv v = true
  | null, _ => rfl
  | bool _, _ => by simp [eqv]
  | integer _, _ => by simp [eqv]
  | double _, h => by rw [eqv]; exact double_eq_self h
  | string _, _ => by simp [eqv]
  | array vs, h => by rw [eqv]; exact eqvItems_self vs h
  | object ms, h => by
    rw [eqv, beq_self_eq_true, Bool.true_and]
    exact eqvMembers_self fun m hm => ⟨find_self h.1 hm, eqv_self_of_mem ms h.2 m hm⟩

theorem eqvItems_self : ∀ vs : List Json, ValidItems vs → eqvItems vs vs = true
  | [], _ => rfl
  | v :: vs, h => by rw [eqvItems, eqv_self v h.1, eqvItems_self vs h.2]; rfl

theorem eqv_self_of_mem : ∀ ms : List (String × Json), ValidMembers ms →
    ∀ m ∈ ms, m.2.eqv m.2 = true
  | (name, v) :: ms, h, m, hm => by
    rcases List.mem_cons.1 hm with rfl | hm
    · exact eqv_self v h.1
    · exact eqv_self_of_mem ms h.2 m hm

end

mutual

theorem settles_of_eqv : ∀ v w : Json, Valid v → Valid w → v.eqv w = true → Settles v w
  | null, w, _, _, h => by cases w <;> simp_all [eqv, Settles, zeroSigns]
  | bool _, w, _, _, h => by cases w <;> simp_all [eqv, Settles, zeroSigns]
  | integer _, w, _, _, h => by cases w <;> simp_all [eqv, Settles, zeroSigns]
  | string _, w, _, _, h => by cases w <;> simp_all [eqv, Settles, zeroSigns]
  | double x, w, _, _, h => by
    cases w with
    | double y => exact settles_double (by simpa only [eqv] using h)
    | _ => simp [eqv] at h
  | array vs, w, hv, hw, h => by
    cases w with
    | array ws =>
      obtain ⟨hlen, heq⟩ := settlesItems_of_eqv vs ws hv hw (by simpa only [eqv] using h)
      refine ⟨hlen, fun hs => ?_⟩
      rw [heq hs]
    | _ => simp [eqv] at h
  | object ms, w, hv, hw, h => by
    cases w with
    | object ns =>
      rw [eqv, Bool.and_eq_true, beq_iff_eq] at h
      have hnames := names_eq hv.1 hw.1 h.1 (mem_names_of_eqvMembers h.2)
      obtain ⟨hlen, heq⟩ := settlesMembers_of_eqv ms ns hv.1 hv.2 hw.2 hnames h.2
      refine ⟨hlen, fun hs => ?_⟩
      rw [heq hs]
    | _ => simp [eqv] at h

theorem settlesItems_of_eqv : ∀ vs ws : List Json, ValidItems vs → ValidItems ws →
    eqvItems vs ws = true →
      (zeroSignsItems vs).length = (zeroSignsItems ws).length ∧
        (zeroSignsItems vs = zeroSignsItems ws → vs = ws)
  | [], ws, _, _, h => by cases ws <;> simp_all [eqvItems]
  | v :: vs, ws, hv, hw, h => by
    cases ws with
    | nil => simp [eqvItems] at h
    | cons w ws =>
      rw [eqvItems, Bool.and_eq_true] at h
      obtain ⟨hlen, heq⟩ := settles_of_eqv v w hv.1 hw.1 h.1
      obtain ⟨hlens, heqs⟩ := settlesItems_of_eqv vs ws hv.2 hw.2 h.2
      simp only [zeroSignsItems, List.length_append, hlen, hlens, true_and]
      intro hs
      obtain ⟨hs, hss⟩ := List.append_inj hs hlen
      rw [heq hs, heqs hss]

theorem settlesMembers_of_eqv : ∀ ms ns : List (String × Json),
    ms.Pairwise (fun a b => a.1 < b.1) → ValidMembers ms → ValidMembers ns →
    ms.map Prod.fst = ns.map Prod.fst → eqvMembers ms ns = true →
      (zeroSignsMembers ms).length = (zeroSignsMembers ns).length ∧
        (zeroSignsMembers ms = zeroSignsMembers ns → ms = ns)
  | [], ns, _, _, _, hnames, _ => by
    obtain rfl : ns = [] := by simpa using hnames.symm
    simp
  | (name, v) :: ms, ns, hsort, hv, hw, hnames, h => by
    obtain _ | ⟨⟨name', w⟩, ns⟩ := ns
    · simp at hnames
    · simp only [List.map_cons, List.cons.injEq] at hnames
      obtain ⟨rfl, hnames⟩ := hnames
      rw [List.pairwise_cons] at hsort
      rw [eqvMembers, List.find?_cons_of_pos (by simp), Bool.and_eq_true,
        eqvMembers_skip (n := (name, w)) fun m hm => ne_of_lt (hsort.1 m hm)] at h
      obtain ⟨hlen, heq⟩ := settles_of_eqv v w hv.1 hw.1 h.1
      obtain ⟨hlens, heqs⟩ := settlesMembers_of_eqv ms ns hsort.2 hv.2 hw.2 hnames h.2
      simp only [zeroSignsMembers, List.length_append, hlen, hlens, true_and]
      intro hs
      obtain ⟨hs, hss⟩ := List.append_inj hs hlen
      rw [heq hs, heqs hss]

end

/-- **Valid values are equal exactly when they are equal by content down to the signs of their
zeros.** -/
theorem eq_iff {v w : Json} (hv : Valid v) (hw : Valid w) : v.same w = true ↔ v = w := by
  rw [same, Bool.and_eq_true, beq_iff_eq]
  constructor
  · rintro ⟨h, hs⟩
    exact (settles_of_eqv v w hv hw h).2 hs
  · rintro rfl
    exact ⟨eqv_self v hv, rfl⟩

theorem render_eq_iff {v w : Json} (hv : Valid v) (hw : Valid w) :
    v.render = w.render ↔ v.same w = true := by
  rw [eq_iff hv hw]
  exact ⟨render_injective hv hw, fun h => h ▸ rfl⟩

end Quorum.Json
