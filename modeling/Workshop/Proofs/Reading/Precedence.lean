import Workshop.Script.OperatorTree
import Mathlib.Data.List.Basic

/-!
# Operator precedence

A chain of operands and operators can be bracketed in many ways.  Precedence
singles out one of them: an operator binds its right operand only if that binds
more tightly, and its left operand also if it binds equally.  The tree that is
built from left to right is this one, and so is the tree that is found by cutting
the chain at its weakest operator.

Main definitions:

- `OperatorTree.inOrder`: the chain that a tree is made of, from left to right.
- `OperatorTree.IsOrdered`: a tree that respects precedence.
- `OperatorTree.ofWeakest`: the tree of a chain, cut at the rightmost of its
  operators of lowest precedence.

Main results:

- Theorem `OperatorTree.IsOrdered.eq`: of all trees of a chain, at most one
  respects precedence.
- Theorems `OperatorTree.inOrder_ofChain` and `OperatorTree.isOrdered_ofChain`:
  the tree that is built from left to right is a tree of the chain and respects
  precedence.
- Theorem `OperatorTree.ofWeakest_eq_ofChain`: cutting a chain at its weakest
  operator gives the same tree.
-/

namespace Workshop

/-- An operator and its right operand. -/
abbrev Link := BinaryOperator × Node

namespace OperatorTree

/-- The chain that a tree is made of: its first operand, then its operators with the operands behind
them. -/
def inOrder : OperatorTree → Node × List Link
  | operand node => (node, [])
  | operation operator left right =>
    (left.inOrder.1, left.inOrder.2 ++ (operator, right.inOrder.1) :: right.inOrder.2)

/-- The operator of a tree, if it is not a single operand. -/
def root? : OperatorTree → Option BinaryOperator
  | operand _ => none
  | operation operator _ _ => some operator

/-- A tree that respects precedence.  A left operand binds at least as tightly as the operator, and
a right operand more tightly. -/
def IsOrdered : OperatorTree → Prop
  | operand _ => True
  | operation operator left right =>
    (∀ inner ∈ left.root?, operator.precedence ≤ inner.precedence) ∧
      (∀ inner ∈ right.root?, operator.precedence < inner.precedence) ∧
      left.IsOrdered ∧ right.IsOrdered

variable {tree other : OperatorTree} {before after links : List Link}

/-! ## Trees of one chain -/

/-- An ordered tree has no operator that is weaker than the one at its root. -/
theorem IsOrdered.root?_bound_iff (htree : tree.IsOrdered) {bound : Nat} :
    (∀ inner ∈ tree.root?, bound ≤ inner.precedence) ↔
      ∀ link ∈ tree.inOrder.2, bound ≤ link.1.precedence := by
  induction tree generalizing bound with
  | operand node => simp [root?, inOrder]
  | operation operator left right ihleft ihright =>
      rcases htree with ⟨hleft, hright, hleftOrdered, hrightOrdered⟩
      rw [ihleft hleftOrdered] at hleft
      have hright' := (ihright hrightOrdered).1 hright
      rw [inOrder, List.forall_mem_append, List.forall_mem_cons]
      constructor
      · intro hroot
        have hbound := hroot operator rfl
        exact ⟨fun link hmem => Nat.le_trans hbound (hleft link hmem), hbound,
          fun link hmem => Nat.le_trans hbound (Nat.le_of_lt (hright' link hmem))⟩
      · rintro ⟨_, hbound, _⟩ inner hinner
        cases hinner
        exact hbound

/-- An operation respects precedence if its operator is the rightmost of the weakest ones. -/
theorem isOrdered_operation_iff {operator : BinaryOperator} {left right : OperatorTree} :
    (operation operator left right).IsOrdered ↔
      (∀ link ∈ left.inOrder.2, operator.precedence ≤ link.1.precedence) ∧
      (∀ link ∈ right.inOrder.2, operator.precedence < link.1.precedence) ∧
      left.IsOrdered ∧ right.IsOrdered := by
  constructor
  · rintro ⟨hleft, hright, hleftOrdered, hrightOrdered⟩
    exact ⟨hleftOrdered.root?_bound_iff.1 hleft, hrightOrdered.root?_bound_iff.1 hright,
      hleftOrdered, hrightOrdered⟩
  · rintro ⟨hleft, hright, hleftOrdered, hrightOrdered⟩
    exact ⟨hleftOrdered.root?_bound_iff.2 hleft, hrightOrdered.root?_bound_iff.2 hright,
      hleftOrdered, hrightOrdered⟩

/-- The rightmost of the weakest operators of a chain stands in one place only. -/
theorem append_link_inj {before' after' : List Link} {link link' : Link}
    (hbefore : ∀ other ∈ before, link.1.precedence ≤ other.1.precedence)
    (hafter : ∀ other ∈ after, link.1.precedence < other.1.precedence)
    (hbefore' : ∀ other ∈ before', link'.1.precedence ≤ other.1.precedence)
    (hafter' : ∀ other ∈ after', link'.1.precedence < other.1.precedence)
    (hsame : before ++ link :: after = before' ++ link' :: after') :
    before = before' ∧ link = link' ∧ after = after' := by
  rcases List.append_eq_append_iff.1 hsame with ⟨more, rfl, hmore⟩ | ⟨more, rfl, hmore⟩
  · cases more with
    | nil =>
        rcases List.cons.inj hmore with ⟨hlink, hrest⟩
        exact ⟨by simp, hlink, hrest⟩
    | cons first more =>
        -- The first place lies in front of the second, so each of the two operators is weaker.
        rcases List.cons.inj hmore with ⟨rfl, rfl⟩
        have hle := hbefore' link (by simp)
        have hlt := hafter link' (by simp)
        omega
  · cases more with
    | nil =>
        rcases List.cons.inj hmore with ⟨hlink, hrest⟩
        exact ⟨by simp, hlink.symm, hrest.symm⟩
    | cons first more =>
        rcases List.cons.inj hmore with ⟨rfl, rfl⟩
        have hle := hbefore link' (by simp)
        have hlt := hafter' link (by simp)
        omega

/-- Of all trees of a chain, at most one respects precedence. -/
theorem IsOrdered.eq (htree : tree.IsOrdered) (hother : other.IsOrdered)
    (hchain : tree.inOrder = other.inOrder) : tree = other := by
  induction tree generalizing other with
  | operand node =>
      cases other with
      | operand node' =>
          cases hchain
          rfl
      | operation operator left right => simp [inOrder] at hchain
  | operation operator left right ihleft ihright =>
      cases other with
      | operand node => simp [inOrder] at hchain
      | operation operator' left' right' =>
          rw [isOrdered_operation_iff] at htree hother
          rcases htree with ⟨hleft, hright, hleftOrdered, hrightOrdered⟩
          rcases hother with ⟨hleft', hright', hleftOrdered', hrightOrdered'⟩
          rw [inOrder, inOrder, Prod.mk.injEq] at hchain
          rcases append_link_inj hleft hright hleft' hright' hchain.2 with
            ⟨hleftTail, hlink, hrightTail⟩
          rcases Prod.mk.injEq _ _ _ _ ▸ hlink with ⟨rfl, hrightFirst⟩
          rw [ihleft hleftOrdered hleftOrdered' (Prod.ext hchain.1 hleftTail),
            ihright hrightOrdered hrightOrdered' (Prod.ext hrightFirst hrightTail)]

/-! ## Building a tree from left to right -/

theorem inOrder_push (operator : BinaryOperator) (last : Node) (tree : OperatorTree) :
    (tree.push operator last).inOrder =
      (tree.inOrder.1, tree.inOrder.2 ++ [(operator, last)]) := by
  induction tree with
  | operand node => rfl
  | operation above left right _ ihright =>
      rw [push]
      split
      · simp [inOrder, ihright]
      · simp [inOrder]

/-- One more operator, wherever it goes, leaves a tree that respects precedence. -/
theorem IsOrdered.push (htree : tree.IsOrdered) (operator : BinaryOperator) (last : Node) :
    (tree.push operator last).IsOrdered := by
  induction tree with
  | operand node => simp [OperatorTree.push, IsOrdered, root?]
  | operation above left right _ ihright =>
      rw [OperatorTree.push]
      split
      · rename_i hweaker
        rw [isOrdered_operation_iff] at htree ⊢
        rcases htree with ⟨hleft, hright, hleftOrdered, hrightOrdered⟩
        refine ⟨hleft, ?_, hleftOrdered, ihright hrightOrdered⟩
        rw [inOrder_push, List.forall_mem_append, List.forall_mem_singleton]
        exact ⟨hright, hweaker⟩
      · rename_i hstronger
        refine ⟨?_, by simp [root?], htree, trivial⟩
        intro inner hinner
        cases hinner
        exact Nat.le_of_not_lt hstronger

theorem inOrder_foldl (tail : List Link) (tree : OperatorTree) :
    (tail.foldl (fun tree link => tree.push link.1 link.2) tree).inOrder =
      (tree.inOrder.1, tree.inOrder.2 ++ tail) := by
  induction tail generalizing tree with
  | nil => simp
  | cons link tail ih => simp [ih, inOrder_push]

theorem IsOrdered.foldl (htree : tree.IsOrdered) (tail : List Link) :
    (tail.foldl (fun tree link => tree.push link.1 link.2) tree).IsOrdered := by
  induction tail generalizing tree with
  | nil => exact htree
  | cons link tail ih => exact ih (htree.push link.1 link.2)

/-- The tree that is built from a chain is made of that chain. -/
theorem inOrder_ofChain (first : Node) (tail : List Link) :
    (ofChain first tail).inOrder = (first, tail) := by
  rw [ofChain, inOrder_foldl]
  rfl

/-- The tree that is built from a chain respects precedence. -/
theorem isOrdered_ofChain (first : Node) (tail : List Link) : (ofChain first tail).IsOrdered := by
  have hfirst : (operand first).IsOrdered := trivial
  exact hfirst.foldl tail

/-! ## Cutting a chain at its weakest operator -/

/-- The rightmost of the weakest operators of a chain, with what is before and what is behind it. -/
def weakest? : List Link → Option (List Link × Link × List Link)
  | [] => none
  | link :: rest =>
    match weakest? rest with
    | none => some ([], link, rest)
    | some (before, found, after) =>
      if link.1.precedence < found.1.precedence then some ([], link, rest)
      else some (link :: before, found, after)

theorem eq_nil_of_weakest? (hnone : weakest? links = none) : links = [] := by
  cases links with
  | nil => rfl
  | cons link rest =>
      rw [weakest?] at hnone
      split at hnone
      · cases hnone
      · split at hnone <;> cases hnone

/-- Every other operator is at least as strong, and those behind it are stronger. -/
theorem weakest?_spec {found : Link} (hfound : weakest? links = some (before, found, after)) :
    links = before ++ found :: after ∧
      (∀ other ∈ before, found.1.precedence ≤ other.1.precedence) ∧
      ∀ other ∈ after, found.1.precedence < other.1.precedence := by
  induction links generalizing before found after with
  | nil => cases hfound
  | cons link rest ih =>
      rw [weakest?] at hfound
      split at hfound
      · rename_i hnone
        cases hfound
        rw [eq_nil_of_weakest? hnone]
        simp
      · rename_i inner chosen behind hrest
        rcases ih hrest with ⟨rfl, hinner, hbehind⟩
        split at hfound
        · rename_i hweaker
          cases hfound
          refine ⟨rfl, by simp, ?_⟩
          rw [List.forall_mem_append, List.forall_mem_cons]
          exact ⟨fun other hmem => Nat.lt_of_lt_of_le hweaker (hinner other hmem), hweaker,
            fun other hmem => Nat.lt_trans hweaker (hbehind other hmem)⟩
        · rename_i hstronger
          cases hfound
          rw [List.forall_mem_cons]
          exact ⟨rfl, ⟨Nat.le_of_not_lt hstronger, hinner⟩, hbehind⟩

/-- The tree of a chain that is cut at the rightmost of its weakest operators. -/
def ofWeakest (first : Node) (links : List Link) : OperatorTree :=
  match _hcut : weakest? links with
  | none => operand first
  | some (before, (operator, next), after) =>
    operation operator (ofWeakest first before) (ofWeakest next after)
termination_by links.length
decreasing_by
  all_goals
    rw [(weakest?_spec ‹weakest? links = some _›).1, List.length_append, List.length_cons]
    omega

/-- Cutting a chain leaves its order, and the tree that is made of the parts respects precedence. -/
theorem ofWeakest_spec (first : Node) (links : List Link) :
    (ofWeakest first links).inOrder = (first, links) ∧ (ofWeakest first links).IsOrdered := by
  fun_induction ofWeakest first links with
  | case1 first links hcut =>
      rw [eq_nil_of_weakest? hcut]
      exact ⟨rfl, trivial⟩
  | case2 first links before operator next after hcut ihbefore ihafter =>
      rcases weakest?_spec hcut with ⟨rfl, hbefore, hafter⟩
      refine ⟨?_, isOrdered_operation_iff.2 ⟨?_, ?_, ihbefore.2, ihafter.2⟩⟩
      · rw [inOrder, ihbefore.1, ihafter.1]
      · rw [ihbefore.1]
        exact hbefore
      · rw [ihafter.1]
        exact hafter

/-- Cutting a chain at its weakest operator gives the tree that is built from left to right. -/
theorem ofWeakest_eq_ofChain (first : Node) (links : List Link) :
    ofWeakest first links = ofChain first links := by
  rcases ofWeakest_spec first links with ⟨hinOrder, hordered⟩
  exact hordered.eq (isOrdered_ofChain first links) (hinOrder.trans (inOrder_ofChain _ _).symm)

end OperatorTree
end Workshop
