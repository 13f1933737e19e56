import Ckb.Support.ExceptOption

/-!
Bracketings of a nonempty sequence: binary trees whose leaves, read left to right, are the
sequence. A fallible merge is folded over a bracketing, left side first; one rule proves that the
fold of every bracketing of an admissible sequence succeeds with a summary of its leaves, from the
merge of the summaries of two adjacent nonempty parts.
-/

inductive Bracketing (α : Type) where
  | leaf : α → Bracketing α
  | node : Bracketing α → Bracketing α → Bracketing α
deriving DecidableEq, Repr

namespace Bracketing

variable {α β ε : Type}

def leaves : Bracketing α → List α
  | leaf a => [a]
  | node l r => l.leaves ++ r.leaves

theorem leaves_ne_nil (t : Bracketing α) : t.leaves ≠ [] := by
  cases t with
  | leaf a => simp [leaves]
  | node l r => simp [leaves, leaves_ne_nil l]

/-- Each leaf summarised by `single`, each node the merge of its two sides. -/
def fold (single : α → β) (merge : β → β → ExceptT ε Option β) : Bracketing α → ExceptT ε Option β
  | leaf a => pure (single a)
  | node l r => do
    let x ← l.fold single merge
    let y ← r.fold single merge
    merge x y

variable {single : α → β} {merge : β → β → ExceptT ε Option β}

/-- The rule of bracketed merges. `Admissible` holds of the parts of an admissible sequence, and
`Summary` of one leaf; merging the summaries of two adjacent parts of an admissible sequence
succeeds with a summary of both. -/
theorem fold_run_eq_ok (Admissible : List α → Prop) (Summary : List α → β → Prop)
    (parts : ∀ l r, Admissible (l ++ r) → Admissible l ∧ Admissible r)
    (leafSummary : ∀ a, Summary [a] (single a))
    (mergeSummary : ∀ l r x y, l ≠ [] → r ≠ [] → Admissible (l ++ r) → Summary l x → Summary r y →
      ∃ z, (merge x y).run = some (.ok z) ∧ Summary (l ++ r) z) :
    ∀ t : Bracketing α, Admissible t.leaves → ∃ z, (t.fold single merge).run = some (.ok z) ∧ Summary t.leaves z := by
  intro t
  induction t with
  | leaf a => exact fun _ => ⟨single a, rfl, leafSummary a⟩
  | node l r ihl ihr =>
    intro admissible
    obtain ⟨left, right⟩ := parts l.leaves r.leaves admissible
    obtain ⟨x, xRun, xSummary⟩ := ihl left
    obtain ⟨y, yRun, ySummary⟩ := ihr right
    obtain ⟨z, zRun, zSummary⟩ :=
      mergeSummary l.leaves r.leaves x y l.leaves_ne_nil r.leaves_ne_nil admissible xSummary ySummary
    exact ⟨z, ExceptT.run_bind_eq_ok.mpr ⟨x, xRun, ExceptT.run_bind_eq_ok.mpr ⟨y, yRun, zRun⟩⟩, zSummary⟩

end Bracketing
