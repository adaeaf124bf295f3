import Otrix.Common.List

/-!
# Searching a ring for a match

What `intrusive_list_find_first` and `intrusive_list_delete_first` are for: the
first node of a list that satisfies a predicate, and the list without it.

The loop of the search stops at a match or at a null link. A ring has no null
link, so that a search without a match goes round for ever. A deletion moves the
head on to the next node, which for a list of one node is the deleted node
itself: the list never becomes empty.
-/

namespace Otrix

open Linked

universe u

variable {σ ν : Type u} [LinkStore σ ν] [LawfulLinkStore σ ν] [DecidableEq ν]
variable {s : σ} {head node : ν} {nodes front back : List ν} {predicate : ν → Bool}

/-- The search returns the first match of the list, or null if there is none. -/
def FindsFirst (s : σ) (head : ν) (nodes : List ν) (predicate : ν → Bool) : Prop :=
  ∃ fuel, intrusiveListFindFirst fuel s head predicate =
    some ((nodes.find? predicate).getD (null σ))

/-- The deletion returns the head of the list without its first match. The head of an empty list is
null. -/
def DeletesFirst (s : σ) (head : ν) (nodes : List ν) (predicate : ν → Bool) : Prop :=
  ∃ fuel t first, intrusiveListDeleteFirst fuel s head predicate = some (t, first) ∧
    Queue t first (nodes.eraseP predicate)

/-! ## The search -/

/-- The loop passes by what does not match, and stops at the first match. -/
theorem find_first_loop_found {current : ν} {skipped : List ν}
    (h : Ring s (front ++ (skipped ++ node :: back)))
    (hcurrent : (skipped ++ node :: back).head? = some current)
    (hskipped : ∀ x ∈ skipped, predicate x = false) (hnode : predicate node = true) :
    findFirstLoop s predicate (skipped.length + 1) current = some node := by
  induction skipped generalizing front current with
  | nil =>
    obtain rfl : node = current := Option.some.inj hcurrent
    rw [findFirstLoop, if_pos hnode]
  | cons first skipped ih =>
    obtain rfl : first = current := Option.some.inj hcurrent
    have hrest : Ring s ((front ++ [first]) ++ (skipped ++ node :: back)) := by
      rwa [List.append_assoc]
    obtain ⟨second, hsecond⟩ : ∃ second, (skipped ++ node :: back).head? = some second := by
      cases skipped with
      | nil => exact ⟨node, rfl⟩
      | cons second skipped => exact ⟨second, rfl⟩
    have hnext : next s first = second := by
      rw [@Ring.next_eq _ _ _ _ _ _ (skipped ++ node :: back) _ h, List.headD_eq_head?_getD,
        List.head?_append, hsecond]
      rfl
    have hmem : first ∈ front ++ (first :: skipped ++ node :: back) := by simp
    have hnonnull := h.nonnull _ (h.prev_next hmem).1
    have hpass : ¬ predicate first = true := by simp [hskipped first (by simp)]
    rw [List.length_cons, findFirstLoop, if_neg hpass, if_pos hnonnull, hnext]
    exact ih hrest hsecond fun x hx => hskipped x (List.mem_cons_of_mem _ hx)

theorem find_first_loop_spins (h : Ring s nodes) (hnone : ∀ x ∈ nodes, predicate x = false) (fuel : Nat)
    {current : ν} (hcurrent : current ∈ nodes) : findFirstLoop s predicate fuel current = none := by
  induction fuel generalizing current with
  | zero => rfl
  | succ fuel ih =>
    have hnext := (h.prev_next hcurrent).1
    have hpass : ¬ predicate current = true := by simp [hnone current hcurrent]
    rw [findFirstLoop, if_neg hpass, if_pos (h.nonnull _ hnext), ih hnext]

theorem find_first_spins (h : Queue s head nodes) (hnone : ∀ x ∈ nodes, predicate x = false) (fuel : Nat) :
    intrusiveListFindFirst fuel s head predicate = none := by
  unfold intrusiveListFindFirst
  split
  · rfl
  · next hhead => exact find_first_loop_spins h.ring hnone fuel (h.head_mem hhead)

theorem find_first_found (h : Queue s head (front ++ node :: back))
    (hfront : ∀ x ∈ front, predicate x = false)
    (hnode : predicate node = true) :
    intrusiveListFindFirst (front.length + 1) s head predicate = some node := by
  have hhead : head ≠ null σ := h.head_ne_null (a := node) (by simp)
  have hcurrent : (front ++ node :: back).head? = some head := by
    obtain ⟨rest, hnodes⟩ := h.exists_cons hhead
    rw [hnodes]
    rfl
  rw [intrusiveListFindFirst, if_neg hhead]
  exact @find_first_loop_found _ _ _ _ _ _ _ [] _ _ _ _ h.ring hcurrent hfront hnode

omit [LinkStore σ ν] [LawfulLinkStore σ ν] [DecidableEq ν] in
theorem exists_first_match (hmatch : ∃ x ∈ nodes, predicate x = true) :
    ∃ front node back, nodes = front ++ node :: back ∧ predicate node = true ∧
      (∀ x ∈ front, predicate x = false) ∧ nodes.find? predicate = some node ∧
      nodes.eraseP predicate = front ++ back := by
  obtain ⟨x, hx, hpredicate⟩ := hmatch
  obtain ⟨node, front, back, hfront, hnode, hsplit, herase⟩ := List.exists_of_eraseP hx hpredicate
  have hpass : ∀ x ∈ front, predicate x = false := by
    intro x hx
    simpa using hfront x hx
  refine ⟨front, node, back, hsplit, hnode, hpass, ?_, herase⟩
  rw [List.find?_eq_some_iff_append]
  exact ⟨hnode, front, back, hsplit, fun x hx => by simp [hpass x hx]⟩

/-- The search does what it is for exactly when there is a match. -/
theorem finds_first_iff (h : Queue s head nodes) :
    FindsFirst s head nodes predicate ↔ ∃ x ∈ nodes, predicate x = true := by
  constructor
  · rintro ⟨fuel, hfind⟩
    by_contra hnone
    have hpass : ∀ x ∈ nodes, predicate x = false := by simpa using hnone
    rw [find_first_spins h hpass fuel] at hfind
    cases hfind
  · intro hmatch
    obtain ⟨front, node, back, rfl, hnode, hfront, hfind, _⟩ := exists_first_match hmatch
    exact ⟨front.length + 1, by rw [find_first_found h hfront hnode, hfind]; rfl⟩

/-! ## The deletion -/

omit [LawfulLinkStore σ ν] in
/-- In a list of several nodes the first match is deleted as `intrusive_list_delete` does it. -/
theorem delete_first_eq_delete {fuel : Nat} (hfind : intrusiveListFindFirst fuel s head predicate = some node)
    (hnull : node ≠ null σ) (hself : node ≠ next s node) :
    intrusiveListDeleteFirst fuel s head predicate = some (intrusiveListDelete s head node) := by
  rw [intrusiveListDeleteFirst, hfind, Option.bind_eq_bind, Option.bind_some, if_pos hnull,
    intrusiveListDelete]
  by_cases hhead : node = head
  · rw [if_pos hhead, if_pos hhead, if_neg hself]
  · rw [if_neg hhead, if_neg hhead]

/-- A list of one node keeps its head when that node is deleted. -/
theorem delete_first_singleton {fuel : Nat} {t : σ} {first : ν} (h : Ring s [head])
    (hdelete : intrusiveListDeleteFirst fuel s head predicate = some (t, first)) : first = head := by
  obtain ⟨toDelete, hfind, hresult⟩ := Option.bind_eq_some_iff.mp hdelete
  split at hresult
  · obtain ⟨_, rfl⟩ := Prod.mk.inj (Option.some.inj hresult)
    split
    · next heq =>
      rw [heq]
      exact h.link_self.1
    · rfl
  · exact (Prod.mk.inj (Option.some.inj hresult)).2.symm

/-- The deletion does what it is for exactly when there is a match and another node. -/
theorem deletes_first_iff (h : Queue s head nodes) :
    DeletesFirst s head nodes predicate ↔ (∃ x ∈ nodes, predicate x = true) ∧ 2 ≤ nodes.length := by
  constructor
  · rintro ⟨fuel, t, first, hdelete, hqueue⟩
    have hmatch : ∃ x ∈ nodes, predicate x = true := by
      by_contra hnone
      have hpass : ∀ x ∈ nodes, predicate x = false := by simpa using hnone
      rw [intrusiveListDeleteFirst, find_first_spins h hpass fuel] at hdelete
      cases hdelete
    refine ⟨hmatch, ?_⟩
    by_contra hshort
    obtain ⟨front, node, back, rfl, hnode, hfront, _, herase⟩ := exists_first_match hmatch
    have hempty : front ++ back = [] := by
      refine List.eq_nil_of_length_eq_zero ?_
      rw [List.length_append, List.length_cons] at hshort
      rw [List.length_append]
      omega
    obtain ⟨rfl, rfl⟩ := List.append_eq_nil_iff.mp hempty
    -- the head that comes back is the deleted node, and the head of an empty list is null
    obtain rfl : head = node := h.head_eq
    rw [delete_first_singleton h.ring hdelete, herase] at hqueue
    exact h.ring.nonnull head (by simp) hqueue.head_eq
  · rintro ⟨hmatch, hlength⟩
    obtain ⟨front, node, back, rfl, hnode, hfront, _, herase⟩ := exists_first_match hmatch
    have hmem : node ∈ front ++ node :: back := by simp
    have hself : node ≠ next s node := by
      intro heq
      have hsame := fun b hb => h.ring.eq_of_next_self (b := b) hmem heq.symm hb
      have hnodup := h.ring.nodup
      have hall := List.eq_replicate_of_mem hsame
      rw [hall] at hnodup hlength
      rw [List.length_replicate] at hlength
      exact absurd (List.nodup_replicate.mp hnodup) (by omega)
    have hdelete := delete_first_eq_delete (find_first_found h hfront hnode) (h.ring.nonnull node hmem) hself
    refine ⟨front.length + 1, _, _, hdelete, ?_⟩
    rw [herase]
    exact intrusive_list_delete_queue h

/-- On a well-formed list both functions do what they are for exactly when some node matches and the list
has another node. -/
theorem predicate_deletion_iff (h : Queue s head nodes) (predicate : ν → Bool) :
    FindsFirst s head nodes predicate ∧ DeletesFirst s head nodes predicate ↔
      (∃ x ∈ nodes, predicate x = true) ∧ 2 ≤ nodes.length := by
  rw [finds_first_iff h, deletes_first_iff h]
  exact ⟨fun hboth => hboth.2, fun hboth => ⟨hboth.1, hboth⟩⟩

/-- The nodes 1 and 2 in a ring. -/
def pairLinks : Links :=
  ⟨fun x => 3 - x, fun x => 3 - x⟩

/-- The second of two nodes is found and deleted. -/
theorem pair_deletes_second :
    Queue pairLinks 1 [1, 2] ∧ FindsFirst pairLinks 1 [1, 2] (fun x => x = 2) ∧
      DeletesFirst pairLinks 1 [1, 2] (fun x => x = 2) := by
  have hqueue : Queue pairLinks 1 [1, 2] :=
    Queue.cons ⟨by simp [Link, pairLinks, next, prev], by simp [Apart], by simp [Storable], by simp⟩
  exact ⟨hqueue, (predicate_deletion_iff hqueue fun x => x = 2).mpr ⟨⟨2, by simp⟩, by simp⟩⟩

/-- The node 1 in a ring of its own. -/
def selfLinks : Links :=
  ⟨fun _ => 1, fun _ => 1⟩

/-- On a list of one node the search for something else does not return, and the deletion of the node
does not return null. -/
theorem single_node_is_not_deleted :
    Queue selfLinks 1 [1] ∧ ¬ FindsFirst selfLinks 1 [1] (fun x => x = 2) ∧
      ¬ DeletesFirst selfLinks 1 [1] (fun x => x = 1) := by
  have hqueue : Queue selfLinks 1 [1] := Queue.cons (Ring.singleton rfl rfl trivial (by simp))
  refine ⟨hqueue, ?_, ?_⟩
  · rw [finds_first_iff hqueue]
    simp
  · rw [deletes_first_iff hqueue]
    simp

end Otrix
