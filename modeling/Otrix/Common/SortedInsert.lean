import Otrix.Common.List
import Mathlib.Order.Lattice

/-!
# Sorted insertion

What `intrusive_list_insert_sorted` is for: a node enters a sorted list behind all nodes whose
key is not greater than its own. Its callers compare the keys of two nodes with `>`.

The scan always comes to its end. The links that the function writes make a ring only when the
list has one node. An empty list returns the node with the links that it had before, and on a
longer list the node in front of the insertion point is never redirected, so that a forward
traversal passes the new node by.
-/

namespace Otrix

open Linked

universe u

variable {σ ν : Type u} {κ : Type*} [LinkStore σ ν] [LawfulLinkStore σ ν] [LinearOrder κ]
variable {s : σ} {head node : ν} {nodes : List ν} {key : ν → κ}

/-- The comparison that the callers pass: the key of the first node is greater. -/
def keyGreater (key : ν → κ) (first second : ν) : Bool :=
  decide (key second < key first)

theorem keyGreater_iff {first second : ν} : keyGreater key first second = true ↔ key second < key first :=
  decide_eq_true_iff

/-- The list has become the old one with the node behind every node whose key is not greater than its
own, and in front of every node with a greater key. -/
def SortedInsertion (key : ν → κ) (nodes : List ν) (node : ν) (s : σ) (head : ν) : Prop :=
  ∃ front back, nodes = front ++ back ∧ (∀ x ∈ front, key x ≤ key node) ∧
    (∀ x ∈ back, key node < key x) ∧ Queue s head (front ++ node :: back)

/-- A node that its predecessor does not point to was not inserted. -/
theorem not_sorted_insertion (h : next s (prev s node) ≠ node) :
    ¬ SortedInsertion key nodes node s head := by
  rintro ⟨front, back, _, _, _, hqueue⟩
  have hmem : node ∈ front ++ node :: back := by simp
  exact h (hqueue.ring.next_prev hmem).2

/-- A node that is the whole list was inserted if it is linked to itself. -/
theorem sorted_insertion_nil_iff (hstorable : Storable σ node) (hnull : node ≠ null σ) :
    SortedInsertion key [] node s node ↔ next s node = node ∧ prev s node = node := by
  constructor
  · rintro ⟨front, back, hsplit, _, _, hqueue⟩
    obtain ⟨rfl, rfl⟩ := List.append_eq_nil_iff.mp hsplit.symm
    exact hqueue.ring.link_self
  · rintro ⟨hnext, hprev⟩
    exact ⟨[], [], rfl, by simp, by simp,
      Queue.cons (Ring.singleton hnext hprev hstorable hnull)⟩

theorem sorted_insertion_singleton {other : ν}
    (h : Queue s head (if keyGreater key other node then [node, other] else [other, node])) :
    SortedInsertion key [other] node s head := by
  by_cases hgreater : key node < key other
  · rw [if_pos (keyGreater_iff.mpr hgreater)] at h
    exact ⟨[], [other], rfl, by simp, by simpa using hgreater, h⟩
  · rw [if_neg (fun hkey => hgreater (keyGreater_iff.mp hkey))] at h
    exact ⟨[other], [], rfl, by simpa using not_lt.mp hgreater, by simp, h⟩

variable [DecidableEq ν]

/-- The scan stops at the latest when it comes round to the head. -/
theorem insert_sorted_scan_stops (node : ν) (compare : ν → ν → Bool) (back : List ν)
    {front : List ν} {current : ν} {fuel : Nat} (h : Ring s (head :: front ++ current :: back))
    (hfuel : back.length + 2 ≤ fuel) :
    ∃ found, insertSortedScan s head node compare fuel current = some found := by
  induction back generalizing front current fuel with
  | nil =>
    obtain ⟨fuel, rfl⟩ : ∃ n, fuel = n + 2 := ⟨fuel - 2, by omega⟩
    have hround : next s current = head := by
      rw [h.next_eq]
      rfl
    unfold insertSortedScan
    split
    · exact ⟨head, by simp [insertSortedScan, hround]⟩
    · exact ⟨current, rfl⟩
  | cons second back ih =>
    obtain ⟨fuel, rfl⟩ : ∃ n, fuel = n + 1 := ⟨fuel - 1, by omega⟩
    have hnext : next s current = second := by
      rw [h.next_eq]
      rfl
    unfold insertSortedScan
    split
    · have hring : Ring s (head :: (front ++ [current]) ++ second :: back) := by simpa using h
      rw [hnext]
      exact ih hring (by simpa using hfuel)
    · exact ⟨current, rfl⟩

/-- A sorted insertion into a list of two nodes or more returns. -/
theorem insert_sorted_returns (node : ν) (compare : ν → ν → Bool) {second : ν} {rest : List ν}
    {fuel : Nat} (h : Ring s (head :: second :: rest)) (hfuel : rest.length + 2 ≤ fuel) :
    ∃ t first, intrusiveListInsertSorted fuel s head node compare = some (t, first) := by
  have hring : Ring s (head :: [] ++ second :: rest) := h
  obtain ⟨found, hscan⟩ := insert_sorted_scan_stops node compare rest hring hfuel
  unfold intrusiveListInsertSorted
  rw [if_neg (h.nonnull head List.mem_cons_self)]
  split
  · exact ⟨_, _, rfl⟩
  · rw [h.link_head.1, hscan]
    exact ⟨_, _, rfl⟩

/-- A sorted insertion always returns. It is one exactly when the list has one node, or when it is empty
and the node was linked to itself before. -/
theorem sorted_insertion_iff_one_node (key : ν → κ) (h : Queue s head nodes)
    (hstorable : Storable σ node) (hnull : node ≠ null σ) (hfresh : ∀ x ∈ nodes, Apart σ node x)
    {fuel : Nat} (hfuel : nodes.length ≤ fuel) :
    ∃ t first, intrusiveListInsertSorted fuel s head node (keyGreater key) = some (t, first) ∧
      (SortedInsertion key nodes node t first ↔
        nodes.length = 1 ∨ nodes = [] ∧ next s node = node ∧ prev s node = node) := by
  match nodes, h, hfresh, hfuel with
  | [], h, _, _ =>
    refine ⟨s, node, ?_, ?_⟩
    · rw [intrusiveListInsertSorted, if_pos (h.head_eq_null_iff.mpr rfl)]
    · rw [sorted_insertion_nil_iff hstorable hnull]
      simp
  | [other], h, hfresh, hfuel =>
    obtain rfl : head = other := h.head_eq
    obtain ⟨fuel, rfl⟩ : ∃ n, fuel = n + 1 := ⟨fuel - 1, by simp at hfuel; omega⟩
    obtain ⟨t, first, hinsert, hqueue, _⟩ := intrusive_list_insert_sorted_singleton
      (keyGreater key) fuel h.ring hstorable hnull (hfresh head (by simp))
    exact ⟨t, first, hinsert, iff_of_true (sorted_insertion_singleton hqueue) (Or.inl rfl)⟩
  | first :: second :: rest, h, hfresh, hfuel =>
    obtain rfl : head = first := h.head_eq
    obtain ⟨t, first, hinsert⟩ := insert_sorted_returns node (keyGreater key) h.ring hfuel
    have hbroken := intrusive_list_insert_sorted_broken h.ring hfresh hinsert
    exact ⟨t, first, hinsert, iff_of_false (not_sorted_insertion hbroken) (by simp)⟩

/-- Two nodes in a ring, in the order of their keys. -/
def twoNodeLinks : Links :=
  ⟨fun x => if x = 1 then 2 else if x = 2 then 1 else x,
    fun x => if x = 1 then 2 else if x = 2 then 1 else x⟩

/-- A second node enters a list of one node. -/
theorem sorted_insertion_second_node : ∃ t first,
    intrusiveListInsertSorted 1 (⟨fun x => x, fun x => x⟩ : Links) 1 2 (keyGreater fun x => x) =
      some (t, first) ∧ SortedInsertion (fun x => x) [1] 2 t first := by
  have hring : Ring (⟨fun x => x, fun x => x⟩ : Links) [1] :=
    Ring.singleton rfl rfl trivial (by decide)
  have hfresh : ∀ x ∈ [1], Apart Links 2 x := show ∀ x ∈ [1], 2 ≠ x by decide
  obtain ⟨t, first, hinsert, hiff⟩ := sorted_insertion_iff_one_node (fun x => x) (Queue.cons hring)
    (show Storable Links 2 from trivial) (by decide) hfresh (Nat.le_refl _)
  exact ⟨t, first, hinsert, hiff.mpr (Or.inl rfl)⟩

/-- The keys of three nodes, the third between the others. -/
def threeKeys (x : Nat) : Nat :=
  if x = 3 then 15 else 10 * x

/-- A third node is to enter a sorted list of two nodes. The forward links of the list stay as they
are. -/
theorem third_node_is_passed_by :
    Queue twoNodeLinks 1 [1, 2] ∧ [1, 2].Pairwise (fun x y => threeKeys x ≤ threeKeys y) ∧
    ∃ t, intrusiveListInsertSorted 2 twoNodeLinks 1 3 (keyGreater threeKeys) = some (t, 1) ∧
      next t 1 = 2 ∧ next t 2 = 1 ∧ ¬ SortedInsertion threeKeys [1, 2] 3 t 1 := by
  have hring : Ring twoNodeLinks [1, 2] :=
    ⟨by simp [Link, twoNodeLinks, next, prev], by simp [Apart], fun _ _ => trivial, by simp⟩
  have hfresh : ∀ x ∈ [1, 2], Apart Links 3 x := show ∀ x ∈ [1, 2], 3 ≠ x by decide
  have hinsert : intrusiveListInsertSorted 2 twoNodeLinks 1 3 (keyGreater threeKeys) =
    some (_, 1) := rfl
  exact ⟨Queue.cons hring, by decide, _, hinsert, by decide, by decide,
    not_sorted_insertion (intrusive_list_insert_sorted_broken hring hfresh hinsert)⟩

end Otrix
