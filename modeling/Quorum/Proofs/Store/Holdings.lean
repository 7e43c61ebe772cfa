import Mathlib
import Quorum.Proofs.Message.Codec
import Quorum.Proofs.Store

/-!
# The holdings of a store

One upload keeps a store `Sound`: each object lies under the digest of its own bytes, and each hash
is there once. So after any run of uploads that began with an empty store, the hashes that are
there are those that the run returned (`mem_hashes_fill`), and `holdings_spec` says what is found
under them and how many there are.
-/

namespace Quorum.Store

variable {s : Store} {v w : Json} {vs : List Json} {hash : String}

/-- A run of uploads, each with the hash that it returned. -/
def uploads (s : Store) : List Json → List (Json × String)
  | [] => []
  | v :: vs => (v, (s.upload v).2) :: (s.upload v).1.uploads vs

theorem uploads_eq (s : Store) (vs : List Json) : s.uploads vs = vs.map fun v => (v, hashOf v) := by
  induction vs generalizing s with
  | nil => rfl
  | cons v vs ih => rw [uploads, ih, upload_hash, List.map_cons]

theorem mem_uploads : (v, hash) ∈ s.uploads vs ↔ v ∈ vs ∧ hashOf v = hash := by
  rw [uploads_eq, List.mem_map]
  constructor
  · rintro ⟨w, hw, heq⟩
    cases heq
    exact ⟨hw, rfl⟩
  · rintro ⟨hv, rfl⟩
    exact ⟨v, hv, rfl⟩

/-! ## What lies in a store -/

def hashes (s : Store) : List String := s.objects.map Prod.fst

/-- Each object lies under the digest of its bytes, and each hash is there once. -/
structure Sound (s : Store) : Prop where
  addressed : ∀ o ∈ s.objects, o.1 = "b3-" ++ Blake3.hex o.2
  nodup : s.hashes.Nodup

theorem find?_isSome_iff : (s.find? hash).isSome ↔ hash ∈ s.hashes := by
  unfold find? hashes
  induction s.objects with
  | nil => simp
  | cons o os ih =>
    rw [List.lookup_cons, List.map_cons, List.mem_cons]
    cases heq : hash == o.1 with
    | true => simp [eq_of_beq heq]
    | false => simp [ih, ne_of_beq_false heq]

/-- An upload adds its hash to those that are there, behind them, or leaves them as they are. -/
theorem hashes_upload (s : Store) (v : Json) :
    (s.upload v).1.hashes = if hashOf v ∈ s.hashes then s.hashes else s.hashes ++ [hashOf v] := by
  unfold upload
  dsimp only
  split
  · rename_i old hold
    have hmem : hashOf v ∈ s.hashes := find?_isSome_iff.1 (by rw [hold]; rfl)
    rw [if_pos hmem, hashes, hashes, List.map_map]
    apply List.map_congr_left
    intro o _
    show (if o.1 = hashOf v then (hashOf v, Utf8.encode v.render) else o).1 = o.1
    split
    · exact Eq.symm ‹_›
    · rfl
  · rename_i hnone
    have hmem : hashOf v ∉ s.hashes := by
      rw [← find?_isSome_iff, hnone]
      exact Bool.false_ne_true
    rw [if_neg hmem, hashes, List.map_append]
    rfl

theorem mem_hashes_upload : hash ∈ (s.upload v).1.hashes ↔ hash ∈ s.hashes ∨ hash = hashOf v := by
  rw [hashes_upload]
  split
  · constructor
    · exact .inl
    · rintro (h | rfl)
      · exact h
      · assumption
  · rw [List.mem_append, List.mem_singleton]

theorem mem_objects_upload {o : String × Bytes} (h : o ∈ (s.upload v).1.objects) :
    o ∈ s.objects ∨ o = (hashOf v, Utf8.encode v.render) := by
  unfold upload at h
  dsimp only at h
  split at h
  · obtain ⟨old, hold, rfl⟩ := List.mem_map.1 h
    split
    · exact .inr rfl
    · exact .inl hold
  · exact (List.mem_append.1 h).imp_right List.mem_singleton.1

/-! ## A run -/

theorem sound_empty : empty.Sound := ⟨nofun, .nil⟩

theorem Sound.upload (h : s.Sound) (v : Json) : (s.upload v).1.Sound where
  addressed := by
    intro o ho
    rcases mem_objects_upload ho with ho | rfl
    · exact h.addressed o ho
    · rfl
  nodup := by
    rw [hashes_upload]
    split
    · exact h.nodup
    · exact h.nodup.append (List.nodup_singleton _) (List.disjoint_singleton.2 ‹_›)

theorem Sound.fill (h : s.Sound) (vs : List Json) : (s.fill vs).Sound := by
  induction vs generalizing s with
  | nil => exact h
  | cons v vs ih => exact ih (h.upload v)

theorem mem_hashes_fill :
    hash ∈ (s.fill vs).hashes ↔ hash ∈ s.hashes ∨ ∃ v ∈ vs, hash = hashOf v := by
  induction vs generalizing s with
  | nil => simp [fill]
  | cons v vs ih =>
    rw [fill_cons, ih, mem_hashes_upload, or_assoc]
    simp only [List.mem_cons, exists_eq_or_imp]

/-- After a run, the text of each upload is found under its hash. -/
theorem find?_fill_of_mem (h : NoCollision vs) (hv : v ∈ vs) :
    (s.fill vs).find? (hashOf v) = some (Utf8.encode v.render) := by
  obtain ⟨before, behind, rfl⟩ := List.append_of_mem hv
  rw [fill_append, fill_cons]
  exact find?_fill (find?_upload_self _ v) (h.mono (List.subset_append_right _ _))

/-- Nothing is found but what was uploaded. -/
theorem exists_of_find?_fill {bytes : Bytes} (h : (empty.fill vs).find? hash = some bytes) :
    ∃ v ∈ vs, hash = hashOf v := by
  have hmem : hash ∈ (empty.fill vs).hashes := find?_isSome_iff.1 (by rw [h]; rfl)
  exact (mem_hashes_fill.1 hmem).resolve_left List.not_mem_nil

/-- As many objects are there as different texts were uploaded. -/
theorem size_fill (h : NoCollision vs) :
    (empty.fill vs).size = (vs.map fun v => Utf8.encode v.render).toFinset.card := by
  have hsound := sound_empty.fill vs
  -- Objects are counted by their hashes, which are as many as the texts that they belong to.
  have hsize : (empty.fill vs).size = (empty.fill vs).hashes.toFinset.card := by
    rw [List.toFinset_card_of_nodup hsound.nodup, hashes, List.length_map]
    rfl
  have himage : (empty.fill vs).hashes.toFinset =
      (vs.map fun v => Utf8.encode v.render).toFinset.image fun bytes =>
        "b3-" ++ Blake3.hex bytes := by
    ext hash
    simp only [List.mem_toFinset, mem_hashes_fill, Finset.mem_image, List.mem_map]
    constructor
    · rintro (hnone | ⟨v, hv, rfl⟩)
      · cases hnone
      · exact ⟨_, ⟨v, hv, rfl⟩, rfl⟩
    · rintro ⟨_, ⟨v, hv, rfl⟩, rfl⟩
      exact .inr ⟨v, hv, rfl⟩
  rw [hsize, himage]
  apply Finset.card_image_of_injOn
  intro a ha b hb heq
  simp only [Finset.mem_coe, List.mem_toFinset, List.mem_map] at ha hb
  obtain ⟨v, hv, rfl⟩ := ha
  obtain ⟨w, hw, rfl⟩ := hb
  exact congrArg Utf8.encode (h v hv w hw (hashOf_eq_iff.1 heq))

/-- What is found after a run under a hash, and read back, is what was uploaded with it. -/
theorem get?_fill_eq_some_iff (hread : ∀ v ∈ vs, ∃ text, Json.read text = .ok v)
    (h : NoCollision vs) (hx : ∀ v ∈ vs, ∀ x ∈ v.doubles, Json.ReadsBack x) :
    (empty.fill vs).get? hash = some v ↔ v ∈ vs ∧ hashOf v = hash := by
  have hget : ∀ w ∈ vs, (empty.fill vs).get? (hashOf w) = some w := by
    intro w hw
    obtain ⟨text, htext⟩ := hread w hw
    exact get?_of_find? (find?_fill_of_mem h hw) (Json.valid_of_read htext)
      (Json.fits_of_read htext).1 (hx w hw)
  constructor
  · intro hsome
    obtain ⟨bytes, hbytes, -⟩ := Option.bind_eq_some_iff.1 hsome
    obtain ⟨w, hw, rfl⟩ := exists_of_find?_fill hbytes
    obtain rfl : w = v := Option.some.inj ((hget w hw).symm.trans hsome)
    exact ⟨hw, rfl⟩
  · rintro ⟨hv, rfl⟩
    exact hget v hv

end Quorum.Store
