import TypedConfig.Proofs.Resolution.Visit

/-!
# Resolutions end

`visit` leaves open how the leaves that a leaf refers to are visited; the recursion is closed by
`visitWithin` at some depth. From a depth of one more than there are open leaves on, nothing depends
on the depth any more, nor on what stands beyond it (`resolveTree_eq_visitWithin`): what is beyond is
never called, whatever the references, and the visits satisfy the recursion that has no bound.
-/

namespace TypedConfig.Resolution

variable {settings : Settings} {root : Node}

/-- The two ways of visiting do the same to each leaf while fewer than `n` leaves are unstarted. -/
def AlikeBelow (root : Node) (n : Nat) (x y : Leaf → Resolution Value) : Prop :=
  ∀ l ∈ root.leaves, Answers (fun p => p.unstarted root < n) (fun _ _ => True) l (x l) (y l)

theorem AlikeBelow.visit {n : Nat} {again again' : Leaf → Resolution Value}
    (h : AlikeBelow root n again again') :
    AlikeBelow root (n + 1) (visit settings root again) (visit settings root again') := by
  intro l hl
  refine Answers.visit (fun l' hl' => h l' hl'.mem_leaves)
    ⟨fun _ _ hp => hp, fun _ _ _ _ hp _ => hp, fun _ _ hp => hp⟩ (fun _ _ _ => trivial)
    (fun p hp hs => ?_) (fun p q v hp hgrows _ _ _ => ?_) fun _ _ _ _ _ _ _ => trivial
  · exact Nat.lt_of_lt_of_le (Progress.unstarted_enter hl hs) (Nat.le_of_lt_succ hp)
  · exact Nat.lt_of_le_of_lt hgrows.unstarted_le hp

/-- By induction on the number of leaves that may be unstarted; each visit that starts a leaf leaves
one less to the visits within it. -/
theorem alikeBelow_visitWithin (beyond beyond' : Leaf → Resolution Value) (n i j : Nat) :
    AlikeBelow root n (visitWithin settings root beyond (n + i))
      (visitWithin settings root beyond' (n + j)) := by
  induction n with
  | zero => exact fun l _ p hp => absurd hp (Nat.not_lt_zero _)
  | succ n ih =>
    rw [Nat.succ_add, Nat.succ_add]
    exact ih.visit

/-- Visits to a depth of more than the number of open leaves are the same at all depths. -/
theorem visitWithin_eq (beyond beyond' : Leaf → Resolution Value) (i j : Nat) {l : Leaf}
    (hl : l ∈ root.leaves) :
    visitWithin settings root beyond (root.openLeaves.length + 1 + i) l =
      visitWithin settings root beyond' (root.openLeaves.length + 1 + j) l :=
  funext fun p => (alikeBelow_visitWithin beyond beyond' _ i j l hl p
    (Nat.lt_succ_of_le Progress.unstarted_le)).1

mutual

theorem assemble_congr {x y : Leaf → Resolution Value} : ∀ n : Node,
    (∀ l ∈ n.leaves, x l = y l) → n.assemble x = n.assemble y
  | .leaf l, h => h l (by simp)
  | .dict _ children, h => by
    rw [Node.assemble, Node.assemble, assembleEntries_congr children fun c hc l hl =>
      h l (Node.mem_leaves_dict hc hl)]
  | .list _ children, h => by
    rw [Node.assemble, Node.assemble, assembleItems_congr children fun c hc l hl =>
      h l (Node.mem_leaves_list hc hl)]

theorem assembleEntries_congr {x y : Leaf → Resolution Value} : ∀ children : List (String × Node),
    (∀ c ∈ children, ∀ l ∈ c.2.leaves, x l = y l) →
      Node.assemble.assembleEntries x children = Node.assemble.assembleEntries y children
  | [], _ => rfl
  | (k, child) :: children, h => by
    obtain ⟨h₁, h⟩ := List.forall_mem_cons.1 h
    rw [Node.assemble.assembleEntries, Node.assemble.assembleEntries, assemble_congr child h₁,
      assembleEntries_congr children h]

theorem assembleItems_congr {x y : Leaf → Resolution Value} : ∀ children : List Node,
    (∀ c ∈ children, ∀ l ∈ c.leaves, x l = y l) →
      Node.assemble.assembleItems x children = Node.assemble.assembleItems y children
  | [], _ => rfl
  | child :: children, h => by
    obtain ⟨h₁, h⟩ := List.forall_mem_cons.1 h
    rw [Node.assemble.assembleItems, Node.assemble.assembleItems, assemble_congr child h₁,
      assembleItems_congr children h]

end

/-- However much deeper visits may nest, and whatever stands beyond: they satisfy the recursion that
has no bound, and the resolution is what they make of the tree. -/
theorem resolveTree_eq_visitWithin (settings : Settings) (root : Node)
    (beyond : Leaf → Resolution Value) (extra : Nat) :
    let settle := visitWithin settings root beyond (root.openLeaves.length + 1 + extra)
    (∀ l ∈ root.leaves, settle l = visit settings root settle l) ∧
      root.assemble settle = resolveTree settings root := by
  refine ⟨fun l hl => ?_, assemble_congr root fun l hl => visitWithin_eq beyond reenter extra 0 hl⟩
  exact visitWithin_eq beyond beyond extra (extra + 1) hl

end TypedConfig.Resolution
