import Mathlib.Data.List.Induction

/-!
Nodes reached from a root along paths of indices.  `Unique` says that no node within a
given depth is reached twice, so that the nodes form a tree; adding an edge to a fresh
node without children keeps it.
-/

namespace PathTree

variable {Node Index : Type}

def follow (child : Node → Index → Option Node) (root : Node) : List Index → Option Node
  | [] => some root
  | index :: rest => (child root index).bind fun node => follow child node rest

/-- The node is reached along a path of at most `depth` indices. -/
def Reached (child : Node → Index → Option Node) (root : Node) (depth : Nat) (node : Node) :
    Prop :=
  ∃ path, path.length ≤ depth ∧ follow child root path = some node

def Unique (child : Node → Index → Option Node) (root : Node) (depth : Nat) : Prop :=
  ∀ first second node, first.length ≤ depth → second.length ≤ depth →
    follow child root first = some node → follow child root second = some node → first = second

/-- `child'` has the one edge more from `node`, at the end of `path`, to `fresh`. -/
structure Grown (child child' : Node → Index → Option Node) (root : Node) (depth : Nat)
    (path : List Index) (index : Index) (node fresh : Node) : Prop where
  reached : follow child root path = some node
  shorter : path.length < depth
  absent : child node index = none
  edge : child' node index = some fresh
  bare : ∀ other, child' fresh other = none
  unreached : ¬Reached child root depth fresh
  same : ∀ other otherIndex, Reached child root depth other →
    ¬(other = node ∧ otherIndex = index) → child' other otherIndex = child other otherIndex

section

variable {child child' : Node → Index → Option Node} {root : Node} {depth : Nat}

theorem follow_append (first second : List Index) :
    follow child root (first ++ second) =
      (follow child root first).bind fun node => follow child node second := by
  induction first generalizing root with
  | nil => rfl
  | cons index rest ih =>
      rw [List.cons_append, follow, follow]
      cases child root index with
      | none => rfl
      | some node => exact ih

theorem follow_snoc (path : List Index) (index : Index) :
    follow child root (path ++ [index]) =
      (follow child root path).bind fun node => child node index := by
  rw [follow_append]
  cases follow child root path with
  | none => rfl
  | some node =>
      change (child node index).bind some = child node index
      cases child node index <;> rfl

/-- Only the edges of the nodes above the last one matter. -/
theorem follow_congr {path : List Index}
    (same : ∀ front index back node, path = front ++ index :: back →
      follow child root front = some node → child' node index = child node index) :
    follow child' root path = follow child root path := by
  induction path using List.reverseRecOn with
  | nil => rfl
  | append_singleton front index ih =>
      have equal := ih fun front' index' back node split reached =>
        same front' index' (back ++ [index]) node (by simp [split]) reached
      rw [follow_snoc, follow_snoc, equal]
      cases reached : follow child root front with
      | none => rfl
      | some node => exact same front index [] node (by simp) reached

theorem Unique.of_congr (unique : Unique child root depth)
    (same : ∀ path, path.length ≤ depth → follow child' root path = follow child root path) :
    Unique child' root depth := by
  intro first second node firstLength secondLength firstReached secondReached
  rw [same first firstLength] at firstReached
  rw [same second secondLength] at secondReached
  exact unique first second node firstLength secondLength firstReached secondReached

/-- Every node but the root hangs on exactly one edge. -/
theorem Unique.parent (unique : Unique child root depth) {node : Node}
    (reached : Reached child root depth node) (notRoot : node ≠ root) :
    ∃! slot : Node × Index, Reached child root (depth - 1) slot.1 ∧
      child slot.1 slot.2 = some node := by
  obtain ⟨path, length, along⟩ := reached
  induction path using List.reverseRecOn with
  | nil => exact absurd (Option.some.inj along).symm notRoot
  | append_singleton front index _ =>
      rw [List.length_append, List.length_singleton] at length
      have whole := along
      rw [follow_snoc, Option.bind_eq_some_iff] at along
      obtain ⟨parent, toParent, edge⟩ := along
      refine ⟨(parent, index), ⟨⟨front, by omega, toParent⟩, edge⟩, ?_⟩
      rintro ⟨other, otherIndex⟩ ⟨⟨path, pathLength, toOther⟩, otherEdge⟩
      have otherWhole : follow child root (path ++ [otherIndex]) = some node := by
        rw [follow_snoc, toOther]
        exact otherEdge
      have same := unique _ _ node (by rw [List.length_append, List.length_singleton]; omega)
        (by rw [List.length_append, List.length_singleton]; omega) otherWhole whole
      obtain ⟨sameFront, sameIndex⟩ := List.append_inj' same rfl
      subst sameFront
      rw [toParent] at toOther
      rw [Option.some.inj toOther, List.singleton_inj.mp sameIndex]

theorem Unique.root_parentless (unique : Unique child root depth) {node : Node} {index : Index}
    (reached : Reached child root (depth - 1) node) (positive : 0 < depth) :
    child node index ≠ some root := by
  intro edge
  obtain ⟨path, length, along⟩ := reached
  have whole : follow child root (path ++ [index]) = some root := by
    rw [follow_snoc, along]
    exact edge
  have same := unique _ [] root (by rw [List.length_append, List.length_singleton]; omega)
    (Nat.zero_le _) whole rfl
  simp at same

variable {path : List Index} {index : Index} {node fresh : Node}

theorem Grown.follow_eq (grown : Grown child child' root depth path index node fresh)
    (unique : Unique child root depth) {target : List Index} (length : target.length ≤ depth) :
    (target = path ++ [index] → follow child' root target = some fresh) ∧
      (target ≠ path ++ [index] → follow child' root target = follow child root target) := by
  have shorter := grown.shorter
  induction target using List.reverseRecOn with
  | nil => exact ⟨fun same => by simp at same, fun _ => rfl⟩
  | append_singleton front last ih =>
      rw [List.length_append, List.length_singleton] at length
      obtain ⟨atNew, elsewhere⟩ := ih (by omega)
      rw [follow_snoc, follow_snoc]
      by_cases beyond : front = path ++ [index]
      · have missing : follow child root front = none := by
          rw [beyond, follow_snoc, grown.reached]
          exact grown.absent
        rw [atNew beyond, missing]
        refine ⟨?_, fun _ => grown.bare last⟩
        intro same
        have lengths := congrArg List.length same
        rw [beyond] at lengths
        simp at lengths
      · rw [elsewhere beyond]
        cases reached : follow child root front with
        | none =>
            refine ⟨?_, fun _ => rfl⟩
            intro same
            rw [(List.append_inj' same rfl).1, grown.reached] at reached
            simp at reached
        | some other =>
            by_cases atEdge : other = node ∧ last = index
            · obtain ⟨rfl, rfl⟩ := atEdge
              have same := unique front path other (by omega) (by omega) reached grown.reached
              subst same
              exact ⟨fun _ => grown.edge, fun different => absurd rfl different⟩
            · have kept := grown.same other last ⟨front, by omega, reached⟩ atEdge
              refine ⟨?_, fun _ => kept⟩
              intro same
              obtain ⟨sameFront, sameLast⟩ := List.append_inj' same rfl
              subst sameFront
              rw [grown.reached] at reached
              exact absurd ⟨(Option.some.inj reached).symm, by simpa using sameLast⟩ atEdge

theorem Grown.follow_new (grown : Grown child child' root depth path index node fresh)
    (unique : Unique child root depth) :
    follow child' root (path ++ [index]) = some fresh :=
  (grown.follow_eq unique (by
    rw [List.length_append, List.length_singleton]
    exact grown.shorter)).1 rfl

theorem Grown.follow_other (grown : Grown child child' root depth path index node fresh)
    (unique : Unique child root depth) {target : List Index} (length : target.length ≤ depth)
    (different : target ≠ path ++ [index]) :
    follow child' root target = follow child root target :=
  (grown.follow_eq unique length).2 different

/-- A node reached after the growth is the fresh one or was reached before. -/
theorem Grown.follow_cases (grown : Grown child child' root depth path index node fresh)
    (unique : Unique child root depth) {target : List Index} {other : Node}
    (length : target.length ≤ depth) (reached : follow child' root target = some other) :
    (target = path ++ [index] ∧ other = fresh) ∨
      (target ≠ path ++ [index] ∧ follow child root target = some other) := by
  by_cases same : target = path ++ [index]
  · rw [same, grown.follow_new unique, Option.some.injEq] at reached
    exact Or.inl ⟨same, reached.symm⟩
  · rw [grown.follow_other unique length same] at reached
    exact Or.inr ⟨same, reached⟩

theorem Grown.unique (grown : Grown child child' root depth path index node fresh)
    (unique : Unique child root depth) : Unique child' root depth := by
  intro first second other firstLength secondLength firstReached secondReached
  rcases grown.follow_cases unique firstLength firstReached with ⟨firstNew, isFresh⟩ | ⟨_, firstOld⟩
  · rcases grown.follow_cases unique secondLength secondReached with ⟨secondNew, _⟩ | ⟨_, secondOld⟩
    · rw [firstNew, secondNew]
    · rw [isFresh] at secondOld
      exact absurd ⟨second, secondLength, secondOld⟩ grown.unreached
  · rcases grown.follow_cases unique secondLength secondReached with ⟨_, isFresh⟩ | ⟨_, secondOld⟩
    · rw [isFresh] at firstOld
      exact absurd ⟨first, firstLength, firstOld⟩ grown.unreached
    · exact unique first second other firstLength secondLength firstOld secondOld

end

end PathTree
