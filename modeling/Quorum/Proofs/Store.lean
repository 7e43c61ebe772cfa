import Mathlib
import Quorum.Proofs.Json.Extent
import Quorum.Store

/-!
# What the store holds

One upload is a change at one hash: its text is found there afterwards, and every other hash finds
what it found before (`find?_upload_self`, `find?_upload_of_ne`). Over a row of uploads (`fill`) a
text stays unless a different one with the same digest is uploaded (`find?_fill`). A stored payload
that was read from somewhere is read back from its text (`get?_of_find?`).
-/

namespace Quorum.Store

variable {s : Store} {v w : Json} {vs : List Json} {hash : String}

/-- The store after payloads were uploaded one after the other. -/
def fill (s : Store) (vs : List Json) : Store := vs.foldl (fun s v => (s.upload v).1) s

/-- Payloads with the same digest have the same text. -/
def NoCollision (vs : List Json) : Prop :=
  ∀ v ∈ vs, ∀ w ∈ vs, Blake3.hex (Utf8.encode v.render) = Blake3.hex (Utf8.encode w.render) →
    v.render = w.render

theorem NoCollision.mono {ws : List Json} (h : NoCollision ws) (hsub : vs ⊆ ws) : NoCollision vs :=
  fun v hv w hw => h v (hsub hv) w (hsub hw)

theorem fill_cons (s : Store) (v : Json) (vs : List Json) :
    s.fill (v :: vs) = (s.upload v).1.fill vs := rfl

theorem fill_append (s : Store) (vs ws : List Json) :
    s.fill (vs ++ ws) = (s.fill vs).fill ws := List.foldl_append

theorem hashOf_eq_iff : hashOf v = hashOf w ↔
    Blake3.hex (Utf8.encode v.render) = Blake3.hex (Utf8.encode w.render) := by
  rw [hashOf, hashOf, ← String.toList_inj, String.toList_append, String.toList_append,
    List.append_cancel_left_eq, String.toList_inj]

/-! ## One upload -/

theorem upload_hash (s : Store) (v : Json) : (s.upload v).2 = hashOf v := by
  unfold upload
  dsimp only
  split <;> rfl

/-- Other hashes find what they found before the entry was replaced. -/
theorem lookup_replace_of_ne {entry : String × Bytes} (h : hash ≠ entry.1)
    (os : List (String × Bytes)) :
    (os.map fun o => if o.1 = entry.1 then entry else o).lookup hash = os.lookup hash := by
  induction os with
  | nil => rfl
  | cons o os ih =>
    by_cases ho : o.1 = entry.1
    · have hne : (hash == o.1) = false := beq_eq_false_iff_ne.2 (ho ▸ h)
      rw [List.map_cons, if_pos ho, List.lookup_cons, List.lookup_cons, hne,
        beq_eq_false_iff_ne.2 h, ih]
    · rw [List.map_cons, if_neg ho, List.lookup_cons, List.lookup_cons, ih]

theorem lookup_replace_self {entry : String × Bytes} {os : List (String × Bytes)} {old : Bytes}
    (h : os.lookup entry.1 = some old) :
    (os.map fun o => if o.1 = entry.1 then entry else o).lookup entry.1 = some entry.2 := by
  induction os with
  | nil => cases h
  | cons o os ih =>
    by_cases ho : o.1 = entry.1
    · rw [List.map_cons, if_pos ho, List.lookup_cons, beq_self_eq_true]
    · have hne : (entry.1 == o.1) = false := beq_eq_false_iff_ne.2 (Ne.symm ho)
      rw [List.lookup_cons, hne] at h
      rw [List.map_cons, if_neg ho, List.lookup_cons, hne, ih h]

/-- What is found under the hash of an upload. -/
theorem find?_upload_self (s : Store) (v : Json) :
    (s.upload v).1.find? (hashOf v) = some (Utf8.encode v.render) := by
  unfold upload
  dsimp only
  split
  · rename_i old hold
    exact @lookup_replace_self (hashOf v, Utf8.encode v.render) _ _ hold
  · rename_i hnone
    show (s.objects ++ [(hashOf v, Utf8.encode v.render)]).lookup (hashOf v) = _
    have hold : s.objects.lookup (hashOf v) = none := hnone
    rw [List.lookup_append, hold, Option.none_or, List.lookup_cons, beq_self_eq_true]

theorem find?_upload_of_ne (s : Store) (h : hash ≠ hashOf v) :
    (s.upload v).1.find? hash = s.find? hash := by
  unfold upload
  dsimp only
  split
  · exact @lookup_replace_of_ne hash (hashOf v, Utf8.encode v.render) h _
  · show (s.objects ++ [(hashOf v, Utf8.encode v.render)]).lookup hash = s.objects.lookup hash
    rw [List.lookup_append, List.lookup_cons, beq_eq_false_iff_ne.2 h, List.lookup_nil,
      Option.or_none]

/-- An upload takes a place, unless its hash has one. -/
theorem size_upload (s : Store) (v : Json) :
    (s.upload v).1.size = s.size + if (s.find? (hashOf v)).isSome then 0 else 1 := by
  unfold upload size
  dsimp only
  split
  · rename_i h
    simp [h]
  · rename_i h
    simp [h]

/-! ## A row of uploads -/

/-- **A text stays where it is**, unless a different one with its digest is uploaded. -/
theorem find?_fill (hfind : s.find? (hashOf v) = some (Utf8.encode v.render))
    (h : NoCollision (v :: vs)) : (s.fill vs).find? (hashOf v) = some (Utf8.encode v.render) := by
  induction vs generalizing s with
  | nil => exact hfind
  | cons w vs ih =>
    have hrest : NoCollision (v :: vs) :=
      h.mono (List.cons_subset_cons v (List.subset_cons_self w vs))
    rw [fill_cons]
    refine ih ?_ hrest
    by_cases hw : hashOf v = hashOf w
    · have htext := h v List.mem_cons_self w (by simp) (hashOf_eq_iff.1 hw)
      rw [hw, htext]
      exact find?_upload_self s w
    · rw [find?_upload_of_ne s hw, hfind]

/-- A hash that is found stays found. -/
theorem isSome_find?_fill (h : (s.find? hash).isSome) : ((s.fill vs).find? hash).isSome := by
  induction vs generalizing s with
  | nil => exact h
  | cons v vs ih =>
    refine ih ?_
    by_cases hv : hash = hashOf v
    · rw [hv, find?_upload_self, Option.isSome_some]
    · rw [find?_upload_of_ne s hv, h]

/-- At most one payload takes at most one place. -/
theorem size_fill_toList_le (s : Store) (content : Option Json) :
    (s.fill content.toList).size ≤ s.size + 1 := by
  cases content with
  | none => exact Nat.le_succ _
  | some v =>
    rw [show s.fill (some v).toList = (s.upload v).1 from rfl, size_upload]
    split <;> omega

/-- A payload whose hash has a place takes none. -/
theorem size_fill_toList {content : Option Json}
    (h : ∀ v, content = some v → (s.find? (hashOf v)).isSome) :
    (s.fill content.toList).size = s.size := by
  cases content with
  | none => rfl
  | some v =>
    rw [show s.fill (some v).toList = (s.upload v).1 from rfl, size_upload, if_pos (h v rfl),
      Nat.add_zero]

/-! ## Reading -/

/-- **A payload that was read is read back from its text.** -/
theorem get?_of_find? (hfind : s.find? hash = some (Utf8.encode v.render)) (hv : v.Valid)
    (hdepth : v.depth < Json.depthLimit) (hx : ∀ x ∈ v.doubles, Json.ReadsBack x) :
    s.get? hash = some v := by
  rw [get?, hfind, Option.bind_some, (Json.read_render hv hx).1 hdepth]
  rfl

end Quorum.Store
