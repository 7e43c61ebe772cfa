import Mathlib
import Quorum.Json.Reader
import Quorum.Proofs.Json.Text
import Quorum.Proofs.Number.Rounding

/-!
# What reading yields

Every value that `read` takes from a text is valid (`valid_of_read`): whole numbers stay
within 64 bits, scaling a double by a power of ten leaves it finite or fails, and the
members of an object are sorted with each name once.
-/

namespace Quorum.Json

open Ascii Double

/-- A reader's value, where there is one, has the property. -/
def Yields {α : Type} (P : α → Prop) (r : Read α) : Prop := ∀ x rest, r = .ok (x, rest) → P x

namespace Yields

variable {α : Type} {P : α → Prop}

theorem ok {x : α} {rest : Bytes} (h : P x) : Yields P (.ok (x, rest)) := by
  rintro y _ ⟨⟩
  exact h

theorem error (f : Fault) : Yields P (.error f) := by
  rintro y _ ⟨⟩

theorem ite {c : Prop} [Decidable c] {r r' : Read α} (h : Yields P r) (h' : Yields P r') :
    Yields P (if c then r else r') := by
  split
  · exact h
  · exact h'

end Yields

/-! ## Numbers -/

theorem digits_le {n count : Nat} {s : Bytes} (h : n ≤ maxSignificand) :
    (digits n count s).1 ≤ maxSignificand := by
  induction s generalizing n count with
  | nil => exact h
  | cons b rest ih =>
    unfold digits
    split
    · rename_i hd
      simp only [Bool.and_eq_true, decide_eq_true_eq] at hd
      exact ih hd.2
    · exact h

theorem isFinite_div_pow {x : Double} (hx : x.isFinite = true) {k n : Nat} (hk : k ≠ 0)
    (hn : n = Nat.pow 10 k) : (x.div (Double.ofNat n)).isFinite = true :=
  isFinite_div hx (hn ▸ Nat.one_lt_pow hk (by decide))

theorem isFinite_scale {x y : Double} {e : Int} (hx : x.isFinite = true)
    (h : scale x e = some y) : y.isFinite = true := by
  fun_induction scale x e with
  | case1 => cases h; exact hx
  | case2 x e _ _ ih => exact ih (isFinite_div_pow hx (by decide) rfl) h
  | case3 x e _ he =>
    cases h
    exact isFinite_div_pow hx (by omega) rfl
  | case4 x e _ _ _ z hz =>
    obtain rfl : z = y := Option.some.inj h
    exact hz
  | case5 => cases h
  | case6 => cases h; exact hx
  | case7 => cases h

/-- A finite double. -/
def IsDouble (v : Json) : Prop := ∃ x, v = double x ∧ x.isFinite = true

theorem IsDouble.valid {v : Json} (h : IsDouble v) : Valid v := by
  obtain ⟨x, rfl, hx⟩ := h
  exact hx

theorem scaled_yields {negative : Bool} {n : Nat} {e : Int} {rest : Bytes}
    (hn : n ≤ maxSignificand) : Yields IsDouble (scaled negative n e rest) := by
  have hfin : (Double.ofNat n).isFinite = true :=
    isFinite_ofNat (by simp only [maxSignificand, UInt64.size] at hn ⊢; omega)
  unfold scaled
  split
  · exact .error _
  · rename_i x hx
    have hx := isFinite_scale hfin hx
    refine .ok ⟨_, rfl, ?_⟩
    split
    · exact isFinite_neg hx
    · exact hx

theorem isDouble_zero (negative : Bool) : IsDouble (double (ofMagnitude negative 0)) :=
  ⟨_, rfl, isFinite_ofMagnitude (by decide)⟩

theorem valid_zero (negative : Bool) : Valid (double (ofMagnitude negative 0)) :=
  (isDouble_zero negative).valid

theorem exponent_yields {negative : Bool} {n : Nat} {start : Int} {s : Bytes}
    (hn : n ≤ maxSignificand) : Yields IsDouble (exponent negative n start s) := by
  unfold exponent
  dsimp only
  split
  · exact .error _
  · refine .ite (.error _) ?_
    split
    · exact scaled_yields hn
    · exact .ite (.error _) (.ok (isDouble_zero _))

theorem exponentOrEnd_yields {negative : Bool} {n : Nat} {e : Int} {s : Bytes}
    (hn : n ≤ maxSignificand) : Yields IsDouble (exponentOrEnd negative n e s) := by
  unfold exponentOrEnd
  split
  · exact .ite (exponent_yields hn) (scaled_yields hn)
  · exact scaled_yields hn

theorem fraction_yields {negative : Bool} {n e : Nat} {s : Bytes} (hn : n ≤ maxSignificand) :
    Yields IsDouble (fraction negative n e s) := by
  have hd : (digits n 0 s).1 ≤ maxSignificand := digits_le hn
  unfold fraction
  dsimp only
  refine .ite (exponentOrEnd_yields hd) (.ite ?_ (exponentOrEnd_yields hd))
  split
  · exact .error _
  · exact .error _

theorem valid_whole {negative : Bool} {n : Nat} (hn : n ≤ maxSignificand) :
    Valid (whole negative n) := by
  simp only [maxSignificand, UInt64.size] at hn
  unfold whole
  split
  · simp only [Valid, IntegerRange, UInt64.size]
    omega
  · split
    · exact isFinite_neg (isFinite_ofNat (by simp only [UInt64.size]; omega))
    · rename_i h
      simp only [Bool.or_eq_true, decide_eq_true_eq, not_or, not_lt] at h
      simp only [Valid, IntegerRange, UInt64.size]
      omega

/-- What the kept digits give unless a point, an exponent or more digits follow. -/
theorem numberTail_yields {negative : Bool} {n : Nat} {s : Bytes} (hn : n ≤ maxSignificand) :
    Yields (fun v => v = whole negative n ∨ IsDouble v) (numberTail negative n s) := by
  have double {r : Read Json} (h : Yields IsDouble r) :
      Yields (fun v => v = whole negative n ∨ IsDouble v) r :=
    fun v rest hr => .inr (h v rest hr)
  unfold numberTail
  split
  · exact .ok (.inl rfl)
  · refine .ite (double ?_)
      (.ite (double (fraction_yields hn)) (.ite (double (exponent_yields hn)) (.ok (.inl rfl))))
    dsimp only
    split
    · exact scaled_yields hn
    · exact .ite (fraction_yields hn) (exponentOrEnd_yields hn)

theorem number_yields {negative : Bool} {s : Bytes} : Yields Valid (number negative s) := by
  have htail {n : Nat} {t : Bytes} (hn : n ≤ maxSignificand) :
      Yields Valid (numberTail negative n t) := by
    intro v rest hv
    rcases numberTail_yields hn v rest hv with rfl | hdouble
    · exact valid_whole hn
    · exact hdouble.valid
  unfold number
  split
  · exact .error _
  · refine .ite (.ite (.error _) (htail (Nat.zero_le _))) (.ite ?_ (.error _))
    dsimp only
    exact htail (digits_le (Nat.zero_le _))

/-! ## Members -/

/-- Later members replace an equal name, so names that came in order stay distinct. -/
theorem pushMember_sorted {α : Type} {acc : List (String × α)} {m : String × α}
    (hacc : acc.Pairwise fun a b => b.1 < a.1) (hm : ∀ a ∈ acc, a.1 ≤ m.1) :
    (pushMember acc m).Pairwise fun a b => b.1 < a.1 := by
  cases acc with
  | nil => exact List.pairwise_singleton _ _
  | cons last earlier =>
    rw [List.pairwise_cons] at hacc
    unfold pushMember
    dsimp only
    split
    · rename_i heq
      exact List.pairwise_cons.2 ⟨fun a ha => heq ▸ hacc.1 a ha, hacc.2⟩
    · rename_i hne
      have hlast : last.1 < m.1 := lt_of_le_of_ne (hm last List.mem_cons_self) hne
      refine List.pairwise_cons.2 ⟨fun a ha => ?_, List.pairwise_cons.2 hacc⟩
      rcases List.mem_cons.1 ha with rfl | ha
      · exact hlast
      · exact (hacc.1 a ha).trans hlast

theorem mem_pushMember {α : Type} {acc : List (String × α)} {m a : String × α}
    (h : a ∈ pushMember acc m) : a = m ∨ a ∈ acc := by
  unfold pushMember at h
  grind

theorem pushMembers_sorted {α : Type} {ms acc : List (String × α)}
    (hms : ms.Pairwise fun a b => a.1 ≤ b.1) (hacc : acc.Pairwise fun a b => b.1 < a.1)
    (hle : ∀ a ∈ acc, ∀ m ∈ ms, a.1 ≤ m.1) :
    (ms.foldl pushMember acc).Pairwise (fun a b => b.1 < a.1) ∧
      ∀ a ∈ ms.foldl pushMember acc, a ∈ ms ∨ a ∈ acc := by
  induction ms generalizing acc with
  | nil => exact ⟨hacc, fun a ha => .inr ha⟩
  | cons m ms ih =>
    rw [List.pairwise_cons] at hms
    have hpush := pushMember_sorted hacc fun a ha => hle a ha m List.mem_cons_self
    obtain ⟨hsorted, hmem⟩ := ih hms.2 hpush fun a ha m' hm' => by
      rcases mem_pushMember ha with rfl | ha
      · exact hms.1 m' hm'
      · exact hle a ha m' (List.mem_cons_of_mem _ hm')
    refine ⟨hsorted, fun a ha => ?_⟩
    rcases hmem a ha with h | h
    · exact .inl (List.mem_cons_of_mem _ h)
    · rcases mem_pushMember h with rfl | h
      · exact .inl List.mem_cons_self
      · exact .inr h

theorem mergeSort_names {α : Type} (ms : List (String × α)) :
    (ms.mergeSort fun a b => !decide (b.1 < a.1)).Pairwise fun a b => a.1 ≤ b.1 := by
  have hle_iff (a b : String × α) : (!decide (b.1 < a.1)) = true ↔ a.1 ≤ b.1 := by
    rw [Bool.not_eq_true', decide_eq_false_iff_not, not_lt]
  have hle := List.pairwise_mergeSort 
    (fun a b c hab hbc => (hle_iff a c).2 (((hle_iff a b).1 hab).trans ((hle_iff b c).1 hbc)))
    (fun a b => by rw [Bool.or_eq_true, hle_iff, hle_iff]; exact le_total _ _) ms
  exact hle.imp fun h => (hle_iff _ _).1 h

/-- Sorted members have each name once and come from the list. -/
theorem sortMembers_spec {α : Type} (ms : List (String × α)) :
    (sortMembers ms).Pairwise (fun a b => a.1 < b.1) ∧ ∀ a ∈ sortMembers ms, a ∈ ms := by
  obtain ⟨hstrict, hmem⟩ := pushMembers_sorted (mergeSort_names ms) List.Pairwise.nil (by simp)
  refine ⟨List.pairwise_reverse.2 hstrict, fun a ha => ?_⟩
  rcases hmem a (List.mem_reverse.1 ha) with h | h
  · exact List.mem_mergeSort.1 h
  · exact absurd h List.not_mem_nil

/-! ## Values -/

theorem validItems_iff {vs : List Json} : ValidItems vs ↔ ∀ v ∈ vs, Valid v := by
  induction vs with
  | nil => simp [ValidItems]
  | cons v vs ih => simp [ValidItems, ih]

theorem validMembers_iff {ms : List (String × Json)} :
    ValidMembers ms ↔ ∀ m ∈ ms, Valid m.2 := by
  induction ms with
  | nil => simp [ValidMembers]
  | cons m ms ih => simp [ValidMembers, ih]

theorem valid_ofMembers {ms : List (String × Json)} (h : ∀ m ∈ ms, Valid m.2) :
    Valid (ofMembers ms) := by
  obtain ⟨hsorted, hmem⟩ := sortMembers_spec ms
  exact ⟨hsorted, validMembers_iff.2 fun m hm => h m (hmem m hm)⟩

theorem ident_yields {letters : List UInt8} {s : Bytes} {v : Json} (hv : Valid v) :
    Yields Valid ((ident letters s).map fun rest => (v, rest)) := by
  cases ident letters s with
  | error f => exact .error f
  | ok rest => exact .ok hv

mutual

theorem value_yields (fuel depth : Nat) (s : Bytes) : Yields Valid (value fuel depth s) := by
  cases fuel with
  | zero => exact .error _
  | succ fuel =>
    unfold value
    split
    · exact .error _
    · refine .ite ?_ (.ite (.ite (.error _) (items_yields _ _ _ _ (by simp)))
        (.ite (.ite (.error _) (members_yields _ _ _ _ (by simp)))
          (.ite number_yields (.ite number_yields (.ite (ident_yields trivial)
            (.ite (ident_yields trivial) (.ite (ident_yields trivial) (.error _))))))))
      split
      · exact .error _
      · exact .ok trivial

theorem items_yields (fuel depth : Nat) (acc : List Json) (s : Bytes)
    (hacc : ∀ v ∈ acc, Valid v) : Yields Valid (items fuel depth acc s) := by
  cases fuel with
  | zero => exact .error _
  | succ fuel =>
    unfold items
    split
    · exact .error _
    · exact .ok (validItems_iff.2 fun v hv => hacc v (List.mem_reverse.1 hv))
    · split
      · exact .error _
      · rename_i hv
        exact items_yields fuel depth _ _
          (List.forall_mem_cons.2 ⟨value_yields fuel depth _ _ _ hv, hacc⟩)

theorem members_yields (fuel depth : Nat) (acc : List (String × Json)) (s : Bytes)
    (hacc : ∀ m ∈ acc, Valid m.2) : Yields Valid (members fuel depth acc s) := by
  cases fuel with
  | zero => exact .error _
  | succ fuel =>
    unfold members
    split
    · exact .error _
    · exact .ok (valid_ofMembers fun m hm => hacc m (List.mem_reverse.1 hm))
    · split
      · exact .error _
      · split
        · exact .error _
        · split
          · exact .error _
          · rename_i hv
            exact members_yields fuel depth _ _
              (List.forall_mem_cons.2 ⟨value_yields fuel depth _ _ _ hv, hacc⟩)

end

/-- What is read is the value at the front; nothing more is behind it. -/
theorem read_eq_ok {s : Bytes} {v : Json} (h : read s = .ok v) :
    ∃ rest, value (stepsFor s) depthLimit s = .ok (v, rest) ∧ nothingMore rest = .ok () := by
  unfold read readFront at h
  cases hv : value (stepsFor s) depthLimit s with
  | error f =>
    rw [hv] at h
    cases h
  | ok p =>
    obtain ⟨w, rest⟩ := p
    rw [hv] at h
    simp only [bind, Except.bind] at h
    cases hmore : nothingMore rest with
    | error f =>
      rw [hmore] at h
      cases h
    | ok u =>
      rw [hmore] at h
      cases h
      exact ⟨rest, rfl, hmore⟩

/-- **What can be read is valid.** -/
theorem valid_of_read {s : Bytes} {v : Json} (h : read s = .ok v) : Valid v := by
  obtain ⟨rest, hv, -⟩ := read_eq_ok h
  exact value_yields _ _ _ _ _ hv

end Quorum.Json
