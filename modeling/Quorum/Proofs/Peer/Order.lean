import Mathlib
import Quorum.Peer.Id

/-!
# The order of peer ids

Ids compare as their keys do (`le_iff`), and the key determines the id (`key_injective`), so the
order is linear.
-/

namespace Quorum.PeerId

theorem le_iff {p q : PeerId} : p.le q = true ↔ p.key ≤ q.key := by
  rw [le, Bool.not_eq_true', ← Bool.not_eq_true, List.lex_eq_true_iff_lt]
  exact not_lt

theorem key_injective {p q : PeerId} (h : p.key = q.key) : p = q := by
  obtain ⟨kind, digest⟩ := p
  obtain ⟨kind', digest'⟩ := q
  simp only [key, List.cons.injEq] at h
  have hkind : kind = kind' := by
    cases kind <;> cases kind' <;> first | rfl | exact absurd h.1 (by decide)
  have hdigest : digest = digest' := List.map_injective_iff.2 (fun a b => UInt8.toNat_inj.1) h.2.2
  rw [hkind, hdigest]

theorem le_trans {p q r : PeerId} (hpq : p.le q = true) (hqr : q.le r = true) :
    p.le r = true :=
  le_iff.2 ((le_iff.1 hpq).trans (le_iff.1 hqr))

theorem le_total (p q : PeerId) : (p.le q || q.le p) = true := by
  rw [Bool.or_eq_true, le_iff, le_iff]
  exact Std.le_total

theorem le_antisymm {p q : PeerId} (hpq : p.le q = true) (hqp : q.le p = true) : p = q :=
  key_injective ((le_iff.1 hpq).antisymm (le_iff.1 hqp))

theorem sort_sorted (ps : List PeerId) : (ps.mergeSort le).Pairwise fun p q => p.le q = true :=
  @List.pairwise_mergeSort PeerId le (fun _ _ _ => le_trans) le_total ps

end Quorum.PeerId
