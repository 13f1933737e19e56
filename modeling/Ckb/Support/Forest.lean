import Mathlib.Logic.Relation

/-!
Forests given by parent links: a partial map from keys to nodes, each node naming the key of its
parent. Following the links up from a key is deterministic, since a key has at most one node, so
two roots outside the map that a key reaches are the same root. Cutting the subtree below one root
leaves the subtree of every other root as it was.
-/

namespace Forest

variable {K V : Type*} (parent : V → K)

/-- `c` is in the map and its node names `p` as its parent. -/
def Edge (view : K → Option V) (c p : K) : Prop := ∃ v, view c = some v ∧ parent v = p

/-- A chain of parent links leads from `h` up to `root`. -/
def Descends (view : K → Option V) (h root : K) : Prop := Relation.TransGen (Edge parent view) h root

/-- A key outside the map that is the parent of a node in it. -/
def Leader (view : K → Option V) (root : K) : Prop := view root = none ∧ ∃ c, Edge parent view c root

open Classical in
/-- The map without the subtree below `root`. -/
noncomputable def cut (view : K → Option V) (root : K) : K → Option V :=
  fun h => if Descends parent view h root then none else view h

variable {parent} {view : K → Option V}

theorem edge_rightUnique : Relator.RightUnique (Edge parent view) := by
  rintro c p q ⟨v, found, rfl⟩ ⟨w, found', rfl⟩
  rw [found] at found'
  cases found'
  rfl

theorem eq_of_reflTransGen_of_none {x y : K} (outside : view x = none)
    (reaches : Relation.ReflTransGen (Edge parent view) x y) : x = y := by
  rcases reaches.cases_head with same | ⟨c, ⟨v, found, -⟩, -⟩
  · exact same
  · rw [outside] at found
    cases found

theorem root_unique {h x y : K} (outsideX : view x = none) (outsideY : view y = none)
    (toX : Relation.ReflTransGen (Edge parent view) h x) (toY : Relation.ReflTransGen (Edge parent view) h y) :
    x = y := by
  rcases Relation.ReflTransGen.total_of_right_unique edge_rightUnique toX toY with xy | yx
  · exact eq_of_reflTransGen_of_none outsideX xy
  · exact (eq_of_reflTransGen_of_none outsideY yx).symm

theorem not_descends_of_reaches {h x y : K} (outsideX : view x = none) (outsideY : view y = none) (other : x ≠ y)
    (toY : Relation.ReflTransGen (Edge parent view) h y) : ¬ Descends parent view h x :=
  fun toX => other (root_unique outsideX outsideY toX.to_reflTransGen toY)

theorem cut_eq_none {h root : K} (below : Descends parent view h root) : cut parent view root h = none := by
  simp [cut, below]

theorem cut_eq_of_not_descends {h root : K} (outside : ¬ Descends parent view h root) :
    cut parent view root h = view h := by
  simp [cut, outside]

theorem cut_eq_some {h root : K} {v : V} :
    cut parent view root h = some v ↔ view h = some v ∧ ¬ Descends parent view h root := by
  by_cases below : Descends parent view h root
  · simp [cut_eq_none below, below]
  · simp [cut_eq_of_not_descends below, below]

theorem edge_cut {c p root : K} :
    Edge parent (cut parent view root) c p ↔ Edge parent view c p ∧ ¬ Descends parent view c root := by
  simp only [Edge, cut_eq_some]
  constructor
  · rintro ⟨v, ⟨found, outside⟩, linked⟩
    exact ⟨⟨v, found, linked⟩, outside⟩
  · rintro ⟨⟨v, found, linked⟩, outside⟩
    exact ⟨v, ⟨found, outside⟩, linked⟩

theorem descends_cut {h x y : K} (outsideX : view x = none) (outsideY : view y = none) (other : x ≠ y) :
    Descends parent (cut parent view x) h y ↔ Descends parent view h y := by
  constructor
  · intro below
    exact Relation.TransGen.mono (fun _ _ edge => (edge_cut.mp edge).1) _ _ below
  · intro below
    -- every key on the chain up to `y` is outside the subtree of `x`
    induction below using Relation.TransGen.head_induction_on with
    | single edge =>
      exact .single (edge_cut.mpr ⟨edge, not_descends_of_reaches outsideX outsideY other (.single edge)⟩)
    | head edge rest ih =>
      exact .head (edge_cut.mpr ⟨edge, not_descends_of_reaches outsideX outsideY other
        (Relation.ReflTransGen.head edge rest.to_reflTransGen)⟩) ih

end Forest
