import Nperf.Model.CommandParser
import Nperf.Model.Uring
import Nperf.Proofs.Messages

namespace Nperf
open Rust

/-- The codes that do not count as a failure. -/
def toleratedCodes : List Int := [-105, -90]

theorem parseReceivedBytes_cases (amount : Int) :
    (amount ∈ toleratedCodes ∧ parseReceivedBytes amount = .ok 0) ∨
      (amount ∉ toleratedCodes ∧ amount < 0 ∧ ∃ e, parseReceivedBytes amount = .error e) ∨
      (amount ∉ toleratedCodes ∧ 0 ≤ amount ∧ parseReceivedBytes amount = .ok 1) := by
  simp only [toleratedCodes, List.mem_cons, List.not_mem_nil, or_false, parseReceivedBytes]
  by_cases hbuffers : amount = -105
  · exact .inl ⟨.inl hbuffers, by rw [if_pos hbuffers]⟩
  rw [if_neg hbuffers]
  by_cases hagain : amount = -11
  · exact .inr (.inl ⟨by omega, by omega, _, by rw [if_pos hagain]⟩)
  rw [if_neg hagain]
  by_cases hsize : amount = -90
  · exact .inl ⟨.inr hsize, by rw [if_pos hsize]⟩
  rw [if_neg hsize]
  by_cases hneg : amount < 0
  · exact .inr (.inl ⟨by omega, hneg, _, by rw [if_pos hneg]⟩)
  · exact .inr (.inr ⟨by omega, by omega, by rw [if_neg hneg]⟩)

namespace Receiver
variable {handle : HandleReturn} {c : Cqe} {r : Receiver}

end Receiver

end Nperf
