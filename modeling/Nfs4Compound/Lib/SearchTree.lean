/-
Module: Nfs4Compound.Lib.SearchTree
Layer: Lib
Purpose: Binary search trees over the values' keys: the search, a new leaf where the search ends, the
  replacement of the node it finds, and what a balanced tree is free to do besides, which is everything
  that keeps the sequence of the values.
Trusted boundary: none
Main exports: inorder, Ordered, search, link, replace, first, Balancing, unbalanced, search_eq_some_iff,
  search_eq_none_iff, inorder_link, inorder_replace, first_eq_head?
-/
import Mathlib.Data.Tree.Basic
import Mathlib.Data.List.Nodup
import Mathlib.Order.Lattice

namespace Nfs4Compound.SearchTree

variable {α κ : Type}

/-- The values from left to right. -/
def inorder : BinaryTree α → List α
  | .nil => []
  | .node value left right => inorder left ++ value :: inorder right

@[simp] theorem inorder_nil : inorder (.nil : BinaryTree α) = [] := rfl

@[simp] theorem inorder_node (value : α) (left right : BinaryTree α) :
    inorder (.node value left right) = inorder left ++ value :: inorder right := rfl

/-- The leftmost value. -/
def first : BinaryTree α → Option α
  | .nil => none
  | .node value left _ => (first left).or (some value)

theorem first_eq_head? (tree : BinaryTree α) : first tree = (inorder tree).head? := by
  induction tree with
  | nil => rfl
  | node value left right leftHypothesis _ =>
      rw [first, leftHypothesis, inorder_node, List.head?_append]
      rfl

section Keys

variable (key : α → κ)

/-- The keys increase from left to right. -/
def Ordered [LT κ] (tree : BinaryTree α) : Prop := (inorder tree).Pairwise fun a b => key a < key b

section Operations

variable [LT κ] [DecidableLT κ]

/-- Go down from the root to the node of a key. -/
def search (wanted : κ) : BinaryTree α → Option α
  | .nil => none
  | .node value left right =>
      if wanted < key value then search wanted left
      else if key value < wanted then search wanted right
      else some value

/-- Hang a new leaf where the search for its key ends; a tree with this key stays as it is. -/
def link (new : α) : BinaryTree α → BinaryTree α
  | .nil => .node new .nil .nil
  | .node value left right =>
      if key new < key value then .node value (link new left) right
      else if key value < key new then .node value left (link new right)
      else .node value left right

/-- Put a new value into the node that the search for its key finds. -/
def replace (new : α) : BinaryTree α → BinaryTree α
  | .nil => .nil
  | .node value left right =>
      if key new < key value then .node value (replace new left) right
      else if key value < key new then .node value left (replace new right)
      else .node new left right

end Operations

variable [LinearOrder κ] {key} {tree left right : BinaryTree α} {value new old : α} {wanted : κ}

theorem ordered_node :
    Ordered key (.node value left right) ↔
      Ordered key left ∧ Ordered key right ∧ (∀ a ∈ inorder left, key a < key value) ∧
        ∀ b ∈ inorder right, key value < key b := by
  rw [Ordered, inorder_node, List.pairwise_append, List.pairwise_cons]
  constructor
  · rintro ⟨lefts, ⟨above, rights⟩, across⟩
    exact ⟨lefts, rights, fun a inLeft => across a inLeft value List.mem_cons_self, above⟩
  · rintro ⟨lefts, rights, below, above⟩
    refine ⟨lefts, ⟨above, rights⟩, fun a inLeft b inRight => ?_⟩
    rcases List.mem_cons.mp inRight with rfl | later
    · exact below a inLeft
    · exact (below a inLeft).trans (above b later)

/-- What a search finds is in the tree under the key. -/
theorem of_search_eq_some (found : search key wanted tree = some value) :
    value ∈ inorder tree ∧ key value = wanted := by
  induction tree with
  | nil => cases found
  | node other left right leftHypothesis rightHypothesis =>
      rw [search] at found
      rw [inorder_node, List.mem_append, List.mem_cons]
      split at found
      · obtain ⟨inLeft, same⟩ := leftHypothesis found
        exact ⟨.inl inLeft, same⟩
      · rename_i notBelow
        split at found
        · obtain ⟨inRight, same⟩ := rightHypothesis found
          exact ⟨.inr (.inr inRight), same⟩
        · rename_i notAbove
          cases found
          exact ⟨.inr (.inl rfl), le_antisymm (not_lt.mp notBelow) (not_lt.mp notAbove)⟩

/-- In an ordered tree a search that finds nothing is right. -/
theorem search_eq_none_iff (ordered : Ordered key tree) :
    search key wanted tree = none ↔ ∀ a ∈ inorder tree, key a ≠ wanted := by
  induction tree with
  | nil => simp [search]
  | node other left right leftHypothesis rightHypothesis =>
      obtain ⟨lefts, rights, below, above⟩ := ordered_node.mp ordered
      rw [search]
      split
      · rename_i small
        rw [leftHypothesis lefts]
        simp only [inorder_node, List.mem_append, List.mem_cons]
        constructor
        · rintro absent a (inLeft | rfl | inRight)
          · exact absent a inLeft
          · exact small.ne'
          · exact (small.trans (above a inRight)).ne'
        · exact fun absent a inLeft => absent a (.inl inLeft)
      · split
        · rename_i big
          rw [rightHypothesis rights]
          simp only [inorder_node, List.mem_append, List.mem_cons]
          constructor
          · rintro absent a (inLeft | rfl | inRight)
            · exact ((below a inLeft).trans big).ne
            · exact big.ne
            · exact absent a inRight
          · exact fun absent a inRight => absent a (.inr (.inr inRight))
        · rename_i notBelow notAbove
          have here : key other = wanted := le_antisymm (not_lt.mp notBelow) (not_lt.mp notAbove)
          constructor
          · intro found
            cases found
          · intro absent
            exact absurd here (absent other (by simp))

/-- Two values of an ordered tree with one key are the same. -/
theorem eq_of_key_eq {a b : α} (ordered : Ordered key tree) (left : a ∈ inorder tree)
    (right : b ∈ inorder tree) (same : key a = key b) : a = b := by
  have strict : ((inorder tree).map key).Nodup :=
    List.pairwise_map.mpr (ordered.imp fun small => small.ne)
  exact List.inj_on_of_nodup_map strict left right same

theorem search_eq_some_iff (ordered : Ordered key tree) :
    search key wanted tree = some value ↔ value ∈ inorder tree ∧ key value = wanted := by
  constructor
  · exact of_search_eq_some
  · rintro ⟨inTree, same⟩
    cases found : search key wanted tree with
    | none => exact absurd same ((search_eq_none_iff ordered).mp found value inTree)
    | some other =>
        obtain ⟨inTree', same'⟩ := of_search_eq_some found
        rw [eq_of_key_eq ordered inTree' inTree (same'.trans same.symm)]

/-- A new leaf stands between the smaller and the larger keys. -/
theorem inorder_link (ordered : Ordered key tree) (absent : search key (key new) tree = none) :
    ∃ before after, inorder tree = before ++ after ∧ inorder (link key new tree) = before ++ new :: after ∧
      (∀ a ∈ before, key a < key new) ∧ ∀ b ∈ after, key new < key b := by
  induction tree with
  | nil => exact ⟨[], [], rfl, rfl, by simp, by simp⟩
  | node other left right leftHypothesis rightHypothesis =>
      obtain ⟨lefts, rights, below, above⟩ := ordered_node.mp ordered
      rw [search] at absent
      rw [link]
      split at absent
      · rename_i small
        obtain ⟨before, after, whole, linked, smaller, larger⟩ := leftHypothesis lefts absent
        refine ⟨before, after ++ other :: inorder right, ?_, ?_, smaller, ?_⟩
        · rw [inorder_node, whole, List.append_assoc]
        · rw [if_pos small, inorder_node, linked, List.append_assoc, List.cons_append]
        · intro b inAfter
          rcases List.mem_append.mp inAfter with inLeft | inRest
          · exact larger b inLeft
          · rcases List.mem_cons.mp inRest with rfl | inRight
            · exact small
            · exact small.trans (above b inRight)
      · rename_i notBelow
        split at absent
        · rename_i big
          obtain ⟨before, after, whole, linked, smaller, larger⟩ := rightHypothesis rights absent
          refine ⟨inorder left ++ other :: before, after, ?_, ?_, ?_, larger⟩
          · rw [inorder_node, whole, List.append_assoc, List.cons_append]
          · rw [if_neg notBelow, if_pos big, inorder_node, linked, List.append_assoc, List.cons_append]
          · intro a inBefore
            rcases List.mem_append.mp inBefore with inLeft | inRest
            · exact (below a inLeft).trans big
            · rcases List.mem_cons.mp inRest with rfl | inRight
              · exact big
              · exact smaller a inRight
        · cases absent

theorem ordered_link (ordered : Ordered key tree) (absent : search key (key new) tree = none) :
    Ordered key (link key new tree) := by
  obtain ⟨before, after, whole, linked, smaller, larger⟩ := inorder_link ordered absent
  rw [Ordered, whole, List.pairwise_append] at ordered
  obtain ⟨befores, afters, across⟩ := ordered
  rw [Ordered, linked, List.pairwise_append, List.pairwise_cons]
  refine ⟨befores, ⟨larger, afters⟩, fun a inBefore b inRest => ?_⟩
  rcases List.mem_cons.mp inRest with rfl | inAfter
  · exact smaller a inBefore
  · exact across a inBefore b inAfter

/-- A replacement stands where the replaced value stood. -/
theorem inorder_replace (found : search key (key new) tree = some old) :
    ∃ before after, inorder tree = before ++ old :: after ∧
      inorder (replace key new tree) = before ++ new :: after := by
  induction tree with
  | nil => cases found
  | node other left right leftHypothesis rightHypothesis =>
      rw [search] at found
      rw [replace]
      split at found
      · rename_i small
        obtain ⟨before, after, whole, replaced⟩ := leftHypothesis found
        refine ⟨before, after ++ other :: inorder right, ?_, ?_⟩
        · rw [inorder_node, whole, List.append_assoc, List.cons_append]
        · rw [if_pos small, inorder_node, replaced, List.append_assoc, List.cons_append]
      · rename_i notBelow
        split at found
        · rename_i big
          obtain ⟨before, after, whole, replaced⟩ := rightHypothesis found
          refine ⟨inorder left ++ other :: before, after, ?_, ?_⟩
          · rw [inorder_node, whole, List.append_assoc, List.cons_append]
          · rw [if_neg notBelow, if_pos big, inorder_node, replaced, List.append_assoc, List.cons_append]
        · rename_i notAbove
          cases found
          refine ⟨inorder left, inorder right, rfl, ?_⟩
          rw [if_neg notBelow, if_neg notAbove, inorder_node]

theorem ordered_replace (ordered : Ordered key tree) (found : search key (key new) tree = some old) :
    Ordered key (replace key new tree) := by
  have same : key old = key new := (of_search_eq_some found).2
  obtain ⟨before, after, whole, replaced⟩ := inorder_replace found
  rw [Ordered, whole, List.pairwise_append, List.pairwise_cons] at ordered
  obtain ⟨befores, ⟨above, afters⟩, across⟩ := ordered
  rw [Ordered, replaced, List.pairwise_append, List.pairwise_cons]
  refine ⟨befores, ⟨fun b inAfter => same ▸ above b inAfter, afters⟩, fun a inBefore b inRest => ?_⟩
  rcases List.mem_cons.mp inRest with rfl | inAfter
  · exact same ▸ across a inBefore old List.mem_cons_self
  · exact across a inBefore b (List.mem_cons_of_mem old inAfter)

end Keys

/-! ### Balancing -/

/-- What a balanced tree does after a leaf has been hung into it, and how it takes a value out. -/
structure Balancing (α : Type) [DecidableEq α] where
  insertColor : BinaryTree α → BinaryTree α
  erase : α → BinaryTree α → BinaryTree α
  inorder_insertColor : ∀ tree, inorder (insertColor tree) = inorder tree
  inorder_erase : ∀ value tree, inorder (erase value tree) = (inorder tree).erase value

/-- One tree beside the other, under the root of the left one. -/
def join : BinaryTree α → BinaryTree α → BinaryTree α
  | .nil, tree => tree
  | .node value left right, tree => .node value left (join right tree)

theorem inorder_join (left right : BinaryTree α) : inorder (join left right) = inorder left ++ inorder right := by
  induction left with
  | nil => rfl
  | node value _ rest _ inductionHypothesis =>
      rw [join, inorder_node, inductionHypothesis, inorder_node, List.append_assoc, List.cons_append]

section Erase

variable [DecidableEq α]

/-- Take a value out and join what was below it. -/
def eraseValue (value : α) : BinaryTree α → BinaryTree α
  | .nil => .nil
  | .node other left right =>
      if value ∈ inorder left then .node other (eraseValue value left) right
      else if other = value then join left right
      else .node other left (eraseValue value right)

theorem inorder_eraseValue (value : α) (tree : BinaryTree α) :
    inorder (eraseValue value tree) = (inorder tree).erase value := by
  induction tree with
  | nil => rfl
  | node other left right leftHypothesis rightHypothesis =>
      rw [eraseValue, inorder_node, List.erase_append]
      split
      · rw [inorder_node, leftHypothesis]
      · split
        · rename_i here
          rw [here, List.erase_cons_head, inorder_join]
        · rename_i elsewhere
          rw [inorder_node, rightHypothesis, List.erase_cons_tail (by simpa using elsewhere)]

/-- The tree that never balances. -/
def unbalanced : Balancing α where
  insertColor := id
  erase := eraseValue
  inorder_insertColor := fun _ => rfl
  inorder_erase := inorder_eraseValue

end Erase

end Nfs4Compound.SearchTree
