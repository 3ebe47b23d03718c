import LoopCapture.Files.Path
import Mathlib.Data.List.Lex
import Mathlib.Data.List.Sort
import Mathlib.Data.Prod.Lex
import Mathlib.Data.String.Basic

/-!
# The order of paths

Paths are compared as lists of pairs: the rank of a component and its name. So two paths that stand
at the same place in the order are the same path, however they are written.
-/

namespace LoopCapture.Files

namespace Component

def key : Component → ℕ ×ₗ String
  | .root => toLex (0, "")
  | .here => toLex (1, "")
  | .up => toLex (2, "")
  | .name s => toLex (3, s)

theorem precedes_iff (a b : Component) : a.precedes b ↔ a.key < b.key := by
  cases a <;> cases b <;> simp [precedes, key, rank, Prod.Lex.toLex_lt_toLex]

theorem key_inj (a b : Component) : a.key = b.key ↔ a = b := by
  cases a <;> cases b <;> simp [key]

end Component

theorem componentsPrecede_iff (as bs : List Component) :
    componentsPrecede as bs ↔ as.map Component.key < bs.map Component.key := by
  induction as generalizing bs with
  | nil => cases bs <;> simp [componentsPrecede]
  | cons a as ih =>
    cases bs with
    | nil => simp [componentsPrecede]
    | cons b bs =>
      simp [componentsPrecede, List.cons_lt_cons_iff, Component.precedes_iff, ih, Component.key_inj]

namespace Path

def key (p : Path) : List (ℕ ×ₗ String) := p.components.map Component.key

theorem precedes_iff (p q : Path) : p.precedes q ↔ p.key < q.key :=
  componentsPrecede_iff p.components q.components

theorem isSame_iff (p q : Path) : p.isSame q ↔ p.key = q.key := by
  rw [isSame, beq_iff_eq, key, key, List.map_inj_right fun a b => (Component.key_inj a b).1]

/-- Paths in strict order that stand at the same places are the same, one by one. -/
theorem map_key_eq {ps qs : List Path} (hps : ps.Pairwise (·.key < ·.key))
    (hqs : qs.Pairwise (·.key < ·.key)) (h : ∀ k, k ∈ ps.map key ↔ k ∈ qs.map key) :
    ps.map key = qs.map key :=
  (List.pairwise_map.2 hps).eq_of_mem_iff (List.pairwise_map.2 hqs) h

end Path
end LoopCapture.Files
