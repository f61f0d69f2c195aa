import SparsePattern.Proofs.Layout.Acceptance
import SparsePattern.Proofs.Layout.Lengths

/-!
# Well-formed patterns

A pattern made from a layout is well-formed, and each well-formed pattern is made from its own
layout (`Pattern.ofLayout_eq_ok_iff`).
-/

namespace SparsePattern.Pattern

variable {p : Pattern}

/-- A pattern is made of just the layouts of well-formed patterns. -/
theorem ofLayout_eq_ok_iff {l : Layout} : ofLayout l = .ok p ↔ p.WellFormed ∧ p.toLayout = l := by
  rw [ofLayout, Rows.bind_eq_ok]
  constructor
  · rintro ⟨_, hcheck, heq⟩
    have hl := Layout.check_eq_ok_iff.1 hcheck
    obtain rfl := Except.ok.inj heq
    exact ⟨⟨hl, hl.longestGap_eq⟩, rfl⟩
  · rintro ⟨hp, rfl⟩
    refine ⟨(), Layout.check_eq_ok_iff.2 hp.layout, ?_⟩
    rw [hp.layout.longestGap_eq, ← hp.longestRow_eq]
    rfl

namespace WellFormed

theorem longestRow_le_nCols (hp : p.WellFormed) : p.longestRow ≤ p.nCols := by
  rw [hp.longestRow_eq]
  exact hp.layout.longest_le_nCols

theorem longestRow_le_size (hp : p.WellFormed) : p.longestRow ≤ p.columns.size := by
  rw [hp.longestRow_eq]
  exact hp.layout.longest_le_size

end WellFormed

end SparsePattern.Pattern
