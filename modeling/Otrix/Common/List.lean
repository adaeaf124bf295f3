import Otrix.Foundation.LinkStore

/-!
# The intrusive list of `common/list.h`

The functions of the header over an arbitrary link store, statement by statement
and in the order of the writes. A pointer is a node reference, `null` is `NULL`,
and `struct intrusive_list *` results that the caller must store are returned
next to the updated links. The header's assertions reject null nodes by spinning,
so a null node is outside the domain of these functions.

The theorems relate each function to `Ring`. `intrusiveListPushBack` links the
node in front of the given head and returns the *node*, so a caller that stores
the result as its head reads the newest node first. `intrusiveListInsertSorted`
never redirects the `next` link of the node in front of the insertion point
unless the ring has one node, so it breaks every longer ring.
-/

namespace Otrix

open Linked Function

universe u

section

variable {σ ν : Type u} [LinkStore σ ν]

/-- `intrusive_list_init`: make the node a ring of its own. -/
def intrusiveListInit (s : σ) (node : ν) : σ :=
  let s := setPrev s node node
  setNext s node node

/-- `intrusive_list_get_tail`. -/
def intrusiveListGetTail (s : σ) (head : ν) : ν :=
  prev s head

variable [DecidableEq ν]

/-- `intrusive_list_push_back`: link `tail` in front of `head`, and return `tail`. -/
def intrusiveListPushBack (s : σ) (head tail : ν) : σ × ν :=
  if head = null σ then (intrusiveListInit s tail, tail)
  else
    let last := intrusiveListGetTail s head
    let s := setNext s last tail
    let s := setPrev s tail last
    let s := setNext s tail head
    let s := setPrev s head tail
    (s, tail)

/-- `intrusive_list_unlink_node`: link the neighbours of the node to each other. The node keeps
its own links. -/
def intrusiveListUnlinkNode (s : σ) (node : ν) : σ :=
  if node = null σ then s
  else
    let s := setNext s (prev s node) (next s node)
    setPrev s (next s node) (prev s node)

/-- `intrusive_list_delete`: unlink the node and return the new head. -/
def intrusiveListDelete (s : σ) (head node : ν) : σ × ν :=
  if node = head then
    if node = next s node then (s, null σ)
    else (intrusiveListUnlinkNode s node, next s node)
  else (intrusiveListUnlinkNode s node, head)

/-- The loop of `intrusive_list_find_first`: a match ends it, and so does a null link. `none` means
that the loop is still going after `fuel` nodes. -/
def findFirstLoop (s : σ) (predicate : ν → Bool) : Nat → ν → Option ν
  | 0, _ => none
  | fuel + 1, current =>
    if predicate current then some current
    else if next s current ≠ null σ then findFirstLoop s predicate fuel (next s current)
    else some (null σ)

/-- `intrusive_list_find_first`. The assertion at its beginning spins on a null head. -/
def intrusiveListFindFirst (fuel : Nat) (s : σ) (head : ν) (predicate : ν → Bool) : Option ν :=
  if head = null σ then none else findFirstLoop s predicate fuel head

/-- `intrusive_list_delete_first`: unlink the first match, if there is one, and return the new head. -/
def intrusiveListDeleteFirst (fuel : Nat) (s : σ) (head : ν) (predicate : ν → Bool) :
    Option (σ × ν) := do
  let toDelete ← intrusiveListFindFirst fuel s head predicate
  if toDelete ≠ null σ then
    some (intrusiveListUnlinkNode s toDelete, if toDelete = head then next s toDelete else head)
  else some (s, head)

/-- `intrusive_list_insert`: link the node behind `before`. -/
def intrusiveListInsert (s : σ) (before node : ν) : σ :=
  let s := setNext s node (next s before)
  let s := if next s node ≠ null σ then setPrev s (next s node) node else s
  let s := setPrev s node before
  setNext s before node

/-- The scan of `intrusive_list_insert_sorted`: advance until the head comes round again or the
comparison holds. `none` means that the scan is still going after `fuel` nodes. -/
def insertSortedScan (s : σ) (head node : ν) (compare : ν → ν → Bool) : Nat → ν → Option ν
  | 0, _ => none
  | fuel + 1, current =>
    if current ≠ head ∧ compare current node = false then
      insertSortedScan s head node compare fuel (next s current)
    else some current

/-- `intrusive_list_insert_sorted`: insert the node before the first node for which the comparison
holds, or at the end, and return the new head. -/
def intrusiveListInsertSorted (fuel : Nat) (s : σ) (head node : ν) (compare : ν → ν → Bool) :
    Option (σ × ν) :=
  if head = null σ then some (s, node)
  else if compare head node then
    let s := setNext s node head
    let s := setPrev s node (prev s head)
    let s := setPrev s head node
    let s := if next s head = head then setNext s head node else s
    some (s, node)
  else do
    let current ← insertSortedScan s head node compare fuel (next s head)
    let s := setNext s node current
    let s := setPrev s node (prev s current)
    let s := setPrev s current node
    let s := if next s current = current then setNext s current node else s
    some (s, head)

end

theorem intrusive_list_push_back_snd {σ ν : Type u} [LinkStore σ ν] [DecidableEq ν] (s : σ)
    (head tail : ν) : (intrusiveListPushBack s head tail).2 = tail := by
  unfold intrusiveListPushBack
  split
  · rfl
  · rfl

theorem intrusive_list_delete_of_ne {σ ν : Type u} [LinkStore σ ν] [DecidableEq ν] (s : σ)
    {head node : ν} (h : node ≠ head) :
    intrusiveListDelete s head node = (intrusiveListUnlinkNode s node, head) :=
  if_neg h

section

variable {σ ν : Type u} [LinkStore σ ν] [LawfulLinkStore σ ν]
variable {s : σ} {head node before : ν} {nodes rest front back : List ν}

theorem intrusive_list_init_ring (hstorable : Storable σ node) (hnull : node ≠ null σ) :
    Ring (intrusiveListInit s node) [node] := by
  apply Ring.singleton _ _ hstorable hnull
  · exact next_setNext_self hstorable
  · simp only [intrusiveListInit, prev_setNext_self, prev_setPrev_self hstorable]

theorem intrusive_list_get_tail_eq (h : Ring s (head :: rest)) :
    intrusiveListGetTail s head = (head :: rest).getLast (by simp) := by
  rcases List.eq_nil_or_concat' rest with rfl | ⟨front, last, rfl⟩
  · exact h.link_self.2
  · simpa [intrusiveListGetTail] using h.link_last.2

/-- The four writes that link a fresh node between two neighbouring nodes. -/
theorem link_between_ring (h : Ring s (before :: rest)) (hstorable : Storable σ node)
    (hnull : node ≠ null σ) (hfresh : ∀ x ∈ before :: rest, Apart σ node x) :
    Ring (setPrev (setNext (setPrev (setNext s before node) node before) node (next s before))
      (next s before) node) (before :: node :: rest) := by
  have hbefore : before ∈ before :: rest := List.mem_cons_self
  have hafter := (h.prev_next hbefore).1
  have hna := hfresh _ hafter
  have hnb := hfresh before hbefore
  refine h.insert_of_links hstorable hnull hfresh ⟨?_, ?_⟩ ⟨?_, ?_⟩ (fun x hx hne => ?_)
    fun x hx hne => ?_
  · rw [next_setPrev (h.eq_or_apart hafter hbefore), next_setNext_apart hnb,
      next_setPrev_apart hnb, next_setNext_self hstorable]
  · rw [prev_setPrev_apart (apart_symm hna), prev_setNext_self,
      prev_setPrev_self (h.storable before hbefore)]
  · rw [next_setPrev_apart (apart_symm hna), next_setNext_self (h.storable _ hafter)]
  · rw [prev_setPrev_self hstorable]
  · rw [next_setPrev (h.eq_or_apart hafter hx), next_setNext_apart (hfresh x hx),
      next_setPrev_apart (hfresh x hx), next_setNext_apart (h.apart_of_ne hbefore hx hne)]
  · rw [prev_setPrev_apart (h.apart_of_ne hafter hx hne), prev_setNext_apart (hfresh x hx),
      prev_setPrev_apart (hfresh x hx), prev_setNext (h.eq_or_apart hbefore hx)]

variable [DecidableEq ν]

/-- Pushing a fresh node makes it the head: the traversal from the returned pointer is the new
node followed by the old traversal. -/
theorem intrusive_list_push_back_queue (h : Queue s head nodes) (hstorable : Storable σ node)
    (hnull : node ≠ null σ) (hfresh : ∀ x ∈ nodes, Apart σ node x) :
    Queue (intrusiveListPushBack s head node).1 (intrusiveListPushBack s head node).2
      (node :: nodes) := by
  by_cases hhead : head = null σ
  · obtain rfl := h.head_eq_null_iff.mp hhead
    simp only [intrusiveListPushBack, hhead, if_true]
    exact Queue.cons (intrusive_list_init_ring hstorable hnull)
  · obtain ⟨rest, rfl⟩ := h.exists_cons hhead
    obtain ⟨front, last, hfront⟩ : ∃ front last, head :: rest = front ++ [last] :=
      (List.eq_nil_or_concat' (head :: rest)).resolve_left (by simp)
    have hring : Ring s (last :: front) := by
      have hold := h.ring
      rw [hfront] at hold
      exact hold.rotate
    have hlast : intrusiveListGetTail s head = last := by
      simpa [hfront] using intrusive_list_get_tail_eq h.ring
    have hfirst : next s last = head := hlast ▸ (h.ring.next_prev List.mem_cons_self).2
    have hlinked := link_between_ring hring hstorable hnull (by
      intro x hx
      refine hfresh x ?_
      rw [hfront]
      simpa [or_comm] using hx)
    rw [hfirst] at hlinked
    simp only [intrusiveListPushBack, hhead, if_false, hlast]
    refine Queue.cons ?_
    have hsplit : Ring _ ([last] ++ (node :: front)) := hlinked
    rw [hfront]
    exact hsplit.rotate

/-- Unlinking the first node of a ring of at least two nodes leaves the ring of the others. -/
theorem intrusive_list_unlink_node_ring (h : Ring s (node :: rest)) (hne : rest ≠ []) :
    Ring (intrusiveListUnlinkNode s node) rest := by
  have hnull := h.nonnull node (by simp)
  obtain ⟨front, last, rfl⟩ := (List.eq_nil_or_concat' rest).resolve_left hne
  obtain ⟨first, back, hback⟩ := List.exists_cons_of_ne_nil hne
  have hprev : prev s node = last := h.link_last.2
  have hnext : next s node = first := by
    have hcons := h
    rw [hback] at hcons
    exact hcons.link_head.1
  have hfirst : first ∈ node :: (front ++ [last]) := by rw [hback]; simp
  have hlast : last ∈ node :: (front ++ [last]) := by simp
  have hnl : Apart σ node last := (List.pairwise_cons.mp h.apart).1 last (by simp)
  have hnf : Apart σ node first := (List.pairwise_cons.mp h.apart).1 first (by rw [hback]; simp)
  have hln : prev (setNext s last first) node = last := (prev_setNext_apart (apart_symm hnl)).trans hprev
  simp only [intrusiveListUnlinkNode, hnull, if_false, hprev, hnext, hln,
    next_setNext_apart (apart_symm hnl)]
  apply h.erase_of_links hne
  · have hlastEq : (front ++ [last]).getLast hne = last := by simp
    have hfirstEq : (front ++ [last]).head hne = first := by simp [hback]
    rw [hlastEq, hfirstEq]
    constructor
    · rw [next_setPrev (h.eq_or_apart hfirst hlast),
        next_setNext_self (h.storable first hfirst)]
    · rw [prev_setPrev_self (h.storable last hlast)]
  · intro x hx
    rw [List.dropLast_concat] at hx
    have hmem : x ∈ node :: (front ++ [last]) := by simp [hx]
    have hne : last ≠ x := by
      have hnodup := (List.nodup_cons.mp h.nodup).2
      intro he
      exact (List.nodup_append.mp hnodup).2.2 x hx last (by simp) he.symm
    rw [next_setPrev (h.eq_or_apart hfirst hmem),
      next_setNext_apart (h.apart_of_ne hlast hmem hne)]
  · intro x hx
    have hmem : x ∈ node :: (front ++ [last]) := List.mem_cons_of_mem _ (List.mem_of_mem_tail hx)
    have hne : first ≠ x := by
      have hnodup := (List.nodup_cons.mp h.nodup).2
      rw [hback] at hx hnodup
      exact fun he => (List.nodup_cons.mp hnodup).1 (he ▸ hx)
    rw [prev_setPrev_apart (h.apart_of_ne hfirst hmem hne),
      prev_setNext (h.eq_or_apart hlast hmem)]

/-- Deleting a member of a queue erases it from the traversal. The returned head is null exactly
when nothing is left, and moves on only when the head itself is deleted. -/
theorem intrusive_list_delete_queue (h : Queue s head (front ++ node :: back)) :
    Queue (intrusiveListDelete s head node).1 (intrusiveListDelete s head node).2
      (front ++ back) := by
  have hring : Ring s (node :: (back ++ front)) := h.ring.rotate
  cases front with
  | nil =>
    have hhead : node = head := by simp [h.head_eq]
    simp only [List.append_nil] at hring
    cases back with
    | nil =>
      simp only [intrusiveListDelete, hhead, if_true, hhead ▸ hring.link_self.1]
      exact Queue.nil
    | cons first back =>
      have hnext : next s node = first := hring.link_head.1
      have hne : node ≠ first := fun he => (List.nodup_cons.mp hring.nodup).1 (by simp [he])
      simp only [intrusiveListDelete, hnext, if_pos hhead, if_neg hne]
      exact Queue.cons (intrusive_list_unlink_node_ring hring (by simp))
  | cons first front =>
    have hhead : first = head := by simp [h.head_eq]
    have hne : node ≠ head := by
      intro he
      exact (List.nodup_cons.mp h.ring.nodup).1 (by simp [hhead, he])
    simp only [intrusiveListDelete, if_neg hne]
    have hrest := (intrusive_list_unlink_node_ring hring (by simp)).rotate
    exact ⟨hrest, by simp [hhead]⟩

/-- Inserting a fresh node behind the first node of a ring. -/
theorem intrusive_list_insert_ring (h : Ring s (before :: rest)) (hstorable : Storable σ node)
    (hnull : node ≠ null σ) (hfresh : ∀ x ∈ before :: rest, Apart σ node x) :
    Ring (intrusiveListInsert s before node) (before :: node :: rest) := by
  have hbefore : before ∈ before :: rest := List.mem_cons_self
  have hafter := (h.prev_next hbefore).1
  have hsafter := h.storable _ hafter
  have hna := hfresh _ hafter
  have hnb := hfresh before hbefore
  simp only [intrusiveListInsert, next_setNext_self hsafter, ne_eq, h.nonnull _ hafter,
    not_false_eq_true, if_true]
  refine h.insert_of_links hstorable hnull hfresh ⟨?_, ?_⟩ ⟨?_, ?_⟩ (fun x hx hne => ?_)
    fun x hx hne => ?_
  · exact next_setNext_self hstorable
  · rw [prev_setNext_apart (apart_symm hnb), prev_setPrev_self (h.storable before hbefore)]
  · rw [next_setNext_apart (apart_symm hnb), next_setPrev_self,
      next_setPrev_apart (apart_symm hna), next_setNext_self hsafter]
  · rw [prev_setNext (h.eq_or_apart hbefore hafter), prev_setPrev_apart hna,
      prev_setPrev_self hstorable]
  · rw [next_setNext_apart (h.apart_of_ne hbefore hx hne), next_setPrev_apart (hfresh x hx),
      next_setPrev (h.eq_or_apart hafter hx), next_setNext_apart (hfresh x hx)]
  · rw [prev_setNext (h.eq_or_apart hbefore hx), prev_setPrev_apart (hfresh x hx),
      prev_setPrev_apart (h.apart_of_ne hafter hx hne), prev_setNext_apart (hfresh x hx)]

/-- Unlinking a node and inserting a fresh one behind its old predecessor puts the fresh node in
its place. -/
theorem intrusive_list_replace_ring (h : Ring s (node :: rest)) (hne : rest ≠ []) {fresh : ν}
    (hstorable : Storable σ fresh) (hnull : fresh ≠ null σ)
    (hfresh : ∀ x ∈ rest, Apart σ fresh x) :
    Ring (intrusiveListInsert (intrusiveListUnlinkNode s node) (prev s node) fresh)
      (fresh :: rest) := by
  have hunlinked := intrusive_list_unlink_node_ring h hne
  obtain ⟨front, last, rfl⟩ := (List.eq_nil_or_concat' rest).resolve_left hne
  rw [h.link_last.2]
  have hring := intrusive_list_insert_ring hunlinked.rotate hstorable hnull (fun x hx =>
    hfresh x (by simpa [or_comm] using hx))
  have hsplit : Ring _ ([last] ++ (fresh :: front)) := hring
  exact hsplit.rotate

/-- On a ring of one node a sorted insertion is correct: the ring gets the second node, which
becomes the head when the comparison puts it first. -/
theorem intrusive_list_insert_sorted_singleton (compare : ν → ν → Bool) (fuel : Nat)
    (h : Ring s [head]) (hstorable : Storable σ node) (hnull : node ≠ null σ)
    (hfresh : Apart σ node head) :
    ∃ t first, intrusiveListInsertSorted (fuel + 1) s head node compare = some (t, first) ∧
      Queue t first (if compare head node then [node, head] else [head, node]) ∧
      t = setNext (setPrev (setPrev (setNext s node head) node head) head node) head node := by
  have hhead := h.nonnull head (by simp)
  have hself := h.link_self
  have hshead := h.storable head (by simp)
  have hprev : prev (setNext s node head) head = head := by
    rw [prev_setNext_apart hfresh, hself.2]
  have hnext : next (setPrev (setPrev (setNext s node head) node head) head node) head = head := by
    rw [next_setPrev_self, next_setPrev_apart hfresh, next_setNext_apart hfresh, hself.1]
  have hring : Ring (setNext (setPrev (setPrev (setNext s node head) node head) head node)
      head node) [head, node] := by
    refine h.insert_of_links hstorable hnull (by simpa using hfresh) ⟨?_, ?_⟩ ?_
      (fun x hx hne => absurd (List.mem_singleton.mp hx).symm hne)
      fun x hx hne => absurd (hself.1.trans (List.mem_singleton.mp hx).symm) hne
    · exact next_setNext_self hstorable
    · rw [prev_setNext_apart (apart_symm hfresh),
        prev_setPrev_apart (apart_symm hfresh), prev_setPrev_self hshead]
    · rw [hself.1]
      constructor
      · rw [next_setNext_apart (apart_symm hfresh), next_setPrev_apart (apart_symm hfresh),
          next_setPrev_self, next_setNext_self hshead]
      · rw [prev_setNext_self, prev_setPrev_self hstorable]
  by_cases hcompare : compare head node = true
  · refine ⟨_, node, ?_, ?_, rfl⟩
    · simp [intrusiveListInsertSorted, hhead, hcompare, hprev, hnext]
    · have hsplit : Ring _ ([head] ++ [node]) := hring
      simpa [hcompare] using Queue.cons hsplit.rotate
  · refine ⟨_, head, ?_, ?_, rfl⟩
    · simp [intrusiveListInsertSorted, insertSortedScan, hhead, hcompare, hself.1, hprev, hnext]
    · simpa [hcompare] using Queue.cons hring

theorem insert_sorted_scan_mem {compare : ν → ν → Bool} {fuel : Nat} {current found : ν}
    (h : Ring s nodes) (hcurrent : current ∈ nodes)
    (hscan : insertSortedScan s head node compare fuel current = some found) : found ∈ nodes := by
  induction fuel generalizing current with
  | zero => cases hscan
  | succ fuel ih =>
    unfold insertSortedScan at hscan
    split at hscan
    · exact ih (h.prev_next hcurrent).1 hscan
    · exact Option.some.inj hscan ▸ hcurrent

/-- On a longer ring a sorted insertion redirects the links around the insertion point except one:
the node in front of it still points past the new node. -/
theorem intrusive_list_insert_sorted_broken {compare : ν → ν → Bool} {fuel : Nat} {t : σ}
    {first second : ν} (h : Ring s (head :: second :: rest))
    (hfresh : ∀ x ∈ head :: second :: rest, Apart σ node x)
    (hinsert : intrusiveListInsertSorted fuel s head node compare = some (t, first)) :
    next t (prev t node) ≠ node := by
  have hhead := h.nonnull head (by simp)
  -- wherever the scan stops, the insertion writes the same links around that node
  have hbroken : ∀ x ∈ head :: second :: rest,
      let u := setPrev (setPrev (setNext s node x) node (prev (setNext s node x) x)) x node
      next u x ≠ x ∧ next u (prev u node) ≠ node := by
    intro x hx
    have hxn := hfresh x hx
    have hy := (h.next_prev hx).1
    have hyn := hfresh _ hy
    have hprev : prev (setNext s node x) x = prev s x := prev_setNext_apart hxn
    have hnext : ∀ y ∈ head :: second :: rest,
        next (setPrev (setPrev (setNext s node x) node (prev s x)) x node) y = next s y := by
      intro y hy
      rw [next_setPrev (h.eq_or_apart hx hy), next_setPrev_apart (hfresh y hy),
        next_setNext_apart (hfresh y hy)]
    simp only [hprev]
    constructor
    · rw [hnext x hx]
      intro hself
      obtain ⟨front, back, hsplit⟩ := List.append_of_mem hx
      have hrotated : Ring s (x :: (back ++ front)) := by
        have hold := h
        rw [hsplit] at hold
        exact hold.rotate
      cases hlist : back ++ front with
      | nil =>
        obtain ⟨rfl, rfl⟩ := List.append_eq_nil_iff.mp hlist
        simp at hsplit
      | cons y others =>
        rw [hlist] at hrotated
        have hnodup := hrotated.nodup
        rw [← hrotated.link_head.1, hself] at hnodup
        exact (List.nodup_cons.mp hnodup).1 List.mem_cons_self
    · rw [prev_setPrev_apart (apart_symm hxn), prev_setPrev_self (h.storable _ hy),
        hnext _ hy, (h.next_prev hx).2]
      exact (apart_ne hxn).symm
  unfold intrusiveListInsertSorted at hinsert
  rw [if_neg hhead] at hinsert
  split at hinsert
  · obtain ⟨hself, hgoal⟩ := hbroken head (by simp)
    simp only [if_neg hself] at hinsert
    obtain ⟨rfl, rfl⟩ := Prod.mk.inj (Option.some.inj hinsert)
    exact hgoal
  · obtain ⟨current, hscan, hresult⟩ := Option.bind_eq_some_iff.mp hinsert
    obtain ⟨hself, hgoal⟩ :=
      hbroken current (insert_sorted_scan_mem h (h.prev_next (by simp)).1 hscan)
    simp only [if_neg hself] at hresult
    obtain ⟨rfl, rfl⟩ := Prod.mk.inj (Option.some.inj hresult)
    exact hgoal

/-! ## Frame conditions -/

variable {β : Type*}

omit [LawfulLinkStore σ ν] [DecidableEq ν] in
/-- Initialising a node changes nothing that its links cannot change. -/
theorem intrusive_list_init_unseen (observe : σ → β) (hnode : Unseen observe node) :
    observe (intrusiveListInit s node) = observe s := by
  simp only [intrusiveListInit, (hnode _ _).1, (hnode _ _).2]

/-- A push changes nothing beyond the links of the queue and of the pushed node. -/
theorem intrusive_list_push_back_unseen (observe : σ → β) (h : Queue s head nodes)
    (hnodes : ∀ x ∈ nodes, Unseen observe x) (hnode : Unseen observe node) :
    observe (intrusiveListPushBack s head node).1 = observe s := by
  by_cases hhead : head = null σ
  · simp only [intrusiveListPushBack, hhead, if_true]
    exact intrusive_list_init_unseen observe hnode
  · obtain ⟨rest, rfl⟩ := h.exists_cons hhead
    have hhd := hnodes head (by simp)
    have hlast := hnodes _ (h.ring.next_prev (a := head) (by simp)).1
    simp only [intrusiveListPushBack, hhead, if_false, intrusiveListGetTail,
      (hhd _ _).2, (hnode _ _).1, (hnode _ _).2, (hlast _ _).1]

/-- A node that is initialised and then pushed to a queue that it is not in. -/
theorem intrusive_list_init_push_back_queue (h : Queue s head nodes) (hstorable : Storable σ node)
    (hnull : node ≠ null σ) (hfresh : ∀ x ∈ nodes, Apart σ node x) :
    Queue (intrusiveListPushBack (intrusiveListInit s node) head node).1
      (intrusiveListPushBack (intrusiveListInit s node) head node).2 (node :: nodes) := by
  refine intrusive_list_push_back_queue (h.congr ?_ ?_) hstorable hnull hfresh
  · intro x hx
    exact intrusive_list_init_unseen (fun s : σ => next s x) (unseen_next (hfresh x hx))
  · intro x hx
    exact intrusive_list_init_unseen (fun s : σ => prev s x) (unseen_prev (hfresh x hx))

/-- Unlinking a node writes a link of each neighbour, wherever the node's links lead. -/
theorem intrusive_list_unlink_node_stores (hnull : node ≠ null σ) (hnext : Storable σ (next s node))
    (hprev : prev s node = node ∨ Apart σ (prev s node) node) :
    intrusiveListUnlinkNode s node =
      setPrev (setNext s (prev s node) (next s node)) (next s node) (prev s node) := by
  have hlink : next (setNext s (prev s node) (next s node)) node = next s node := by
    rcases hprev with hself | hapart
    · rw [hself, next_setNext_self hnext]
    · rw [next_setNext_apart hapart]
  simp only [intrusiveListUnlinkNode, hnull, if_false, hlink, prev_setNext hprev]

/-- Unlinking a ring node writes a link of each neighbour. -/
theorem intrusive_list_unlink_node_eq (h : Ring s nodes) (hmem : node ∈ nodes) :
    intrusiveListUnlinkNode s node =
      setPrev (setNext s (prev s node) (next s node)) (next s node) (prev s node) :=
  intrusive_list_unlink_node_stores (h.nonnull node hmem) (h.storable _ (h.prev_next hmem).1)
    (h.eq_or_apart (h.next_prev hmem).1 hmem)

/-- Unlinking a ring node changes nothing beyond the links of the ring. -/
theorem intrusive_list_unlink_node_unseen (observe : σ → β) (h : Ring s nodes) (hmem : node ∈ nodes)
    (hnodes : ∀ x ∈ nodes, Unseen observe x) :
    observe (intrusiveListUnlinkNode s node) = observe s := by
  rw [intrusive_list_unlink_node_eq h hmem, (hnodes _ (h.prev_next hmem).1 _ _).2,
    (hnodes _ (h.next_prev hmem).1 _ _).1]

/-- Deleting a queue node changes nothing beyond the links of the queue. -/
theorem intrusive_list_delete_unseen (observe : σ → β) (h : Queue s head nodes) (hmem : node ∈ nodes)
    (hnodes : ∀ x ∈ nodes, Unseen observe x) :
    observe (intrusiveListDelete s head node).1 = observe s := by
  have hunlink := intrusive_list_unlink_node_unseen observe h.ring hmem hnodes
  unfold intrusiveListDelete
  split_ifs with hhead hself
  · rfl
  · exact hunlink
  · exact hunlink

/-- A deleted node keeps its links, and they lead to nodes that are linked to each other. -/
theorem intrusive_list_delete_links (h : Ring s nodes) (hmem : node ∈ nodes) (head : ν) :
    let t := (intrusiveListDelete s head node).1
    (next t node = next s node ∧ prev t node = prev s node) ∧
      next t (prev s node) = next s node ∧ prev t (next s node) = prev s node := by
  have hprev := (h.next_prev hmem).1
  have hnext := (h.prev_next hmem).1
  have hunlinked : let t := intrusiveListUnlinkNode s node
      (next t node = next s node ∧ prev t node = prev s node) ∧
        next t (prev s node) = next s node ∧ prev t (next s node) = prev s node := by
    rw [intrusive_list_unlink_node_eq h hmem]
    refine ⟨⟨?_, ?_⟩, ?_, prev_setPrev_self (h.storable _ hprev)⟩
    · rw [next_setPrev (h.eq_or_apart hnext hmem)]
      by_cases hself : prev s node = node
      · rw [hself, next_setNext_self (h.storable _ hnext)]
      · rw [next_setNext_apart (h.apart_of_ne hprev hmem hself)]
    · by_cases hself : next s node = node
      · rw [hself, prev_setPrev_self (h.storable _ hprev)]
      · rw [prev_setPrev_apart (h.apart_of_ne hnext hmem hself),
          prev_setNext (h.eq_or_apart hprev hmem)]
    · rw [next_setPrev (h.eq_or_apart hnext hprev), next_setNext_self (h.storable _ hnext)]
  unfold intrusiveListDelete
  split_ifs with hhead hself
  · -- a node that is alone is its own neighbour
    have hround : prev s node = node := by
      have hround := (h.prev_next hmem).2
      rwa [← hself] at hround
    exact ⟨⟨rfl, rfl⟩, by rw [hround], by rw [← hself]⟩
  · exact hunlinked
  · exact hunlinked

/-- Inserting behind a ring node changes nothing beyond the links of the ring and of the inserted
node. -/
theorem intrusive_list_insert_unseen (observe : σ → β) (h : Ring s nodes) (hmem : before ∈ nodes)
    (hnodes : ∀ x ∈ nodes, Unseen observe x) (hnode : Unseen observe node) :
    observe (intrusiveListInsert s before node) = observe s := by
  have hnext := (h.prev_next hmem).1
  simp only [intrusiveListInsert, next_setNext_self (h.storable _ hnext), ne_eq,
    h.nonnull _ hnext, not_false_eq_true, if_true]
  rw [(hnodes _ hmem _ _).1, (hnode _ _).2, (hnodes _ hnext _ _).2, (hnode _ _).1]

end

/-! ## Unlinking twice -/

theorem update_apply_of_value (f : Nat → Nat) (a b : Nat) : update f a (f b) b = f b := by
  by_cases heq : b = a
  · rw [heq, update_self]
  · exact update_of_ne heq _ _

variable {node : Nat}

/-- Unlinking a node of a record store writes one link of each neighbour. -/
theorem intrusive_list_unlink_node_links (links : Links) (hnull : node ≠ null Links) :
    intrusiveListUnlinkNode links node =
      ⟨update links.next (links.prev node) (links.next node),
        update links.prev (links.next node) (links.prev node)⟩ := by
  unfold intrusiveListUnlinkNode
  rw [if_neg hnull]
  show Links.mk _ (update links.prev (update links.next (links.prev node)
    (links.next node) node) (links.prev node)) = _
  rw [update_apply_of_value]
  rfl

variable {links : Links}

/-- A node that is a ring of its own is unlinked without a change. -/
theorem intrusive_list_unlink_node_self (hnull : node ≠ null Links)
    (hnext : links.next node = node) (hprev : links.prev node = node) :
    intrusiveListUnlinkNode links node = links := by
  rw [intrusive_list_unlink_node_links links hnull, hnext, hprev,
    update_eq_self_iff.mpr hnext.symm, update_eq_self_iff.mpr hprev.symm]

/-- An unlinked node keeps its own links, and its neighbours are linked to each other once more. -/
theorem intrusive_list_unlink_node_twice (links : Links) (hnull : node ≠ null Links) :
    (intrusiveListUnlinkNode links node).next node = links.next node ∧
      (intrusiveListUnlinkNode links node).prev node = links.prev node ∧
      intrusiveListUnlinkNode (intrusiveListUnlinkNode links node) node =
        intrusiveListUnlinkNode links node := by
  have hunlink := intrusive_list_unlink_node_links links hnull
  have hnext : (intrusiveListUnlinkNode links node).next node = links.next node := by
    rw [hunlink]
    exact update_apply_of_value links.next (links.prev node) node
  have hprev : (intrusiveListUnlinkNode links node).prev node = links.prev node := by
    rw [hunlink]
    exact update_apply_of_value links.prev (links.next node) node
  refine ⟨hnext, hprev, ?_⟩
  rw [intrusive_list_unlink_node_links _ hnull, hnext, hprev, hunlink, update_idem,
    update_idem]

/-- Deleting a node that was unlinked already is deleting it. -/
theorem intrusive_list_delete_unlinked {nodes : List Nat}
    (h : Ring links nodes) (hmem : node ∈ nodes) (head : Nat) :
    intrusiveListDelete (intrusiveListUnlinkNode links node) head node =
      intrusiveListDelete links head node := by
  have hnull := h.nonnull node hmem
  obtain ⟨hnext, _, htwice⟩ := intrusive_list_unlink_node_twice links hnull
  -- a node that is alone is its own neighbour
  have halone : node = links.next node → intrusiveListUnlinkNode links node = links := by
    intro hself
    have hback : links.prev (links.next node) = node := (h.prev_next hmem).2
    rw [← hself] at hback
    exact intrusive_list_unlink_node_self hnull hself.symm hback
  unfold intrusiveListDelete
  rw [htwice, show next (intrusiveListUnlinkNode links node) node = next links node from hnext]
  by_cases hself : node = next links node
  · rw [if_pos hself, if_pos hself, halone hself]
  · rw [if_neg hself, if_neg hself]

end Otrix
