import Otrix.Common.List

/-!
# Several rings in one store

Intrusive nodes move between many lists that share one store of links. `Rings`
says that every head of a family points to its own ring and that the rings have
no node in common. The list operations of `common/list.h` on one member of the
family leave the others alone.
-/

namespace Otrix

open Linked Function

universe u

variable {σ ν : Type u} {κ : Type*} [LinkStore σ ν] [LawfulLinkStore σ ν]

/-- Every head of the family points to its ring, and the rings share no storage. -/
structure Rings (s : σ) (heads : κ → ν) (lists : κ → List ν) : Prop where
  queue : ∀ k, Queue s (heads k) (lists k)
  apart : ∀ k l, k ≠ l → ∀ x ∈ lists k, ∀ y ∈ lists l, Apart σ x y

/-- The nodes of the other rings have the links that they had before. -/
def KeepsOthers (s t : σ) (lists : κ → List ν) (k : κ) : Prop :=
  ∀ l, l ≠ k → ∀ x ∈ lists l, next t x = next s x ∧ prev t x = prev s x

namespace Rings

variable {s t : σ} {heads : κ → ν} {lists : κ → List ν} {k : κ} {node head : ν} {nodes : List ν}

theorem congr (h : Rings s heads lists)
    (hlinks : ∀ k, ∀ x ∈ lists k, next t x = next s x ∧ prev t x = prev s x) :
    Rings t heads lists :=
  ⟨fun k => (h.queue k).congr (fun x hx => (hlinks k x hx).1) (fun x hx => (hlinks k x hx).2),
    h.apart⟩

variable {front back : List ν}

theorem not_mem_front (h : Rings s heads lists)
    (hsplit : lists k = front ++ node :: back) : node ∉ front := by
  have hnodup := (h.queue k).ring.nodup
  rw [hsplit] at hnodup
  exact fun hin => (List.nodup_append.mp hnodup).2.2 node hin node (by simp) rfl

/-- Initialising a node that is in no ring, or alone in its ring, changes no link of a ring. -/
theorem init_links (h : Rings s heads lists)
    (hfree : ∀ k, ∀ x ∈ lists k, Apart σ node x ∨ lists k = [node]) :
    ∀ k, ∀ x ∈ lists k, next (intrusiveListInit s node) x = next s x ∧
      prev (intrusiveListInit s node) x = prev s x := by
  intro k x hx
  rcases hfree k x hx with hapart | halone
  · exact ⟨intrusive_list_init_unseen (fun s : σ => next s x) (unseen_next hapart),
      intrusive_list_init_unseen (fun s : σ => prev s x) (unseen_prev hapart)⟩
  · -- the links that are written are there already
    have hold : Ring s [node] := halone ▸ (h.queue k).ring
    have hnew : Ring (intrusiveListInit s node) [node] :=
      intrusive_list_init_ring (hold.storable node (by simp)) (hold.nonnull node (by simp))
    obtain rfl : x = node := by
      rw [halone] at hx
      exact List.mem_singleton.mp hx
    rw [hold.link_self.1, hold.link_self.2]
    exact hnew.link_self

/-- What only a ring and one further node can change leaves the other rings alone, if the node is in
none of them. -/
theorem keeps_others (h : Rings s heads lists) (hnode : ∀ l, l ≠ k → ∀ x ∈ lists l, Apart σ node x)
    (hunseen : ∀ observe : σ → ν, (∀ x ∈ lists k, Unseen observe x) → Unseen observe node →
      observe t = observe s) : KeepsOthers s t lists k := by
  intro l hne y hy
  have hring : ∀ x ∈ lists k, Apart σ x y := fun x hx => h.apart k l hne.symm x hx y hy
  exact ⟨hunseen (fun s => next s y) (fun x hx => unseen_next (hring x hx)) (unseen_next (hnode l hne y hy)),
    hunseen (fun s => prev s y) (fun x hx => unseen_prev (hring x hx)) (unseen_prev (hnode l hne y hy))⟩

theorem apart_cons (h : Rings s heads lists) (hfresh : ∀ l, ∀ x ∈ lists l, Apart σ node x) :
    ∀ l, l ≠ k → ∀ x ∈ node :: lists k, ∀ y ∈ lists l, Apart σ x y := by
  intro l hne x hx y hy
  rcases List.mem_cons.mp hx with rfl | hx
  · exact hfresh l y hy
  · exact h.apart k l hne.symm x hx y hy

variable (h : Rings s heads lists)
include h

section

variable [DecidableEq ν]

theorem push_back_others (hfresh : ∀ l, ∀ x ∈ lists l, Apart σ node x) :
    KeepsOthers s (intrusiveListPushBack s (heads k) node).1 lists k :=
  h.keeps_others (fun l _ => hfresh l) fun observe => intrusive_list_push_back_unseen observe (h.queue k)

theorem insert_others {before : ν} (hmem : before ∈ lists k)
    (hfresh : ∀ l, ∀ x ∈ lists l, Apart σ node x) :
    KeepsOthers s (intrusiveListInsert s before node) lists k :=
  h.keeps_others (fun l _ => hfresh l) fun observe =>
    intrusive_list_insert_unseen observe (h.queue k).ring hmem

theorem delete_others (hmem : node ∈ lists k) :
    KeepsOthers s (intrusiveListDelete s (heads k) node).1 lists k :=
  h.keeps_others (fun l hne => h.apart k l hne.symm node hmem) fun observe hring _ =>
    intrusive_list_delete_unseen observe (h.queue k) hmem hring

theorem unlink_node_others (hmem : node ∈ lists k) :
    KeepsOthers s (intrusiveListUnlinkNode s node) lists k :=
  h.keeps_others (fun l hne => h.apart k l hne.symm node hmem) fun observe hring _ =>
    intrusive_list_unlink_node_unseen observe (h.queue k).ring hmem hring

theorem apart_erase :
    ∀ l, l ≠ k → ∀ x ∈ (lists k).erase node, ∀ y ∈ lists l, Apart σ x y :=
  fun l hne x hx => h.apart k l hne.symm x (List.mem_of_mem_erase hx)

theorem erase_eq {front back : List ν} (hsplit : lists k = front ++ node :: back) :
    (lists k).erase node = front ++ back := by
  rw [hsplit, List.erase_append_right _ (h.not_mem_front hsplit), List.erase_cons_head]

end

variable [DecidableEq κ]

theorem replace (hqueue : Queue t head nodes)
    (hapart : ∀ l, l ≠ k → ∀ x ∈ nodes, ∀ y ∈ lists l, Apart σ x y) (hlinks : KeepsOthers s t lists k) :
    Rings t (update heads k head) (update lists k nodes) := by
  refine ⟨?_, ?_⟩
  · intro l
    by_cases heq : l = k
    · subst heq
      simpa using hqueue
    · rw [update_of_ne heq, update_of_ne heq]
      exact (h.queue l).congr (fun x hx => (hlinks l heq x hx).1) (fun x hx => (hlinks l heq x hx).2)
  · intro l m hne x hx y hy
    by_cases hl : l = k
    · subst hl
      rw [update_self] at hx
      rw [update_of_ne hne.symm] at hy
      exact hapart m hne.symm x hx y hy
    · rw [update_of_ne hl] at hx
      by_cases hm : m = k
      · subst hm
        rw [update_self] at hy
        exact apart_symm (hapart l hl y hy x hx)
      · rw [update_of_ne hm] at hy
        exact h.apart l m hne x hx y hy

theorem advance {rest : List ν} (hlist : lists k = head :: rest) :
    Rings s (update heads k (next s head)) (update lists k (rest ++ [head])) := by
  have hring : Ring s ([head] ++ rest) := by
    have hold := (h.queue k).ring
    rwa [hlist] at hold
  refine h.replace ⟨hring.rotate, ?_⟩ ?_ (fun l _ x _ => ⟨rfl, rfl⟩)
  · cases rest with
    | nil => exact hring.link_self.1
    | cons second rest => exact hring.link_head.1
  · intro l hne x hx y hy
    refine h.apart k l hne.symm x ?_ y hy
    rw [hlist]
    simpa [or_comm] using hx

theorem rehead (hsplit : lists k = front ++ node :: back) :
    Rings s (update heads k node) (update lists k (node :: back ++ front)) := by
  have hring : Ring s (front ++ node :: back) := by
    have hold := (h.queue k).ring
    rwa [hsplit] at hold
  refine h.replace (Queue.cons hring.rotate) ?_ (fun l _ x _ => ⟨rfl, rfl⟩)
  intro l hne x hx y hy
  refine h.apart k l hne.symm x ?_ y hy
  rw [hsplit]
  simp only [List.mem_append, List.mem_cons] at hx ⊢
  tauto

variable [DecidableEq ν]

theorem push_back (k : κ) (node : ν) (hstorable : Storable σ node)
    (hnull : node ≠ null σ) (hfresh : ∀ l, ∀ x ∈ lists l, Apart σ node x) :
    Rings (intrusiveListPushBack s (heads k) node).1
      (update heads k (intrusiveListPushBack s (heads k) node).2)
      (update lists k (node :: lists k)) :=
  h.replace (intrusive_list_push_back_queue (h.queue k) hstorable hnull (hfresh k)) (h.apart_cons hfresh)
    (h.push_back_others hfresh)

/-- A push by an owner that keeps its head appends the node to the traversal from there. -/
theorem push_back_keep (k : κ) (node : ν) (hstorable : Storable σ node)
    (hnull : node ≠ null σ) (hfresh : ∀ l, ∀ x ∈ lists l, Apart σ node x) :
    Rings (intrusiveListPushBack s (heads k) node).1
      (update heads k
        (if heads k = null σ then (intrusiveListPushBack s (heads k) node).2 else heads k))
      (update lists k (lists k ++ [node])) := by
  have hpushed := h.push_back k node hstorable hnull hfresh
  by_cases hhead : heads k = null σ
  · rw [(h.queue k).head_eq_null_iff.mp hhead] at hpushed ⊢
    rwa [if_pos hhead]
  · obtain ⟨rest, hlist⟩ := (h.queue k).exists_cons hhead
    have hsplit : update lists k (node :: lists k) k = [node] ++ heads k :: rest := by
      rw [update_self, hlist]
      rfl
    have hkept := hpushed.rehead hsplit
    rw [update_idem, update_idem] at hkept
    rwa [if_neg hhead, hlist]

/-- A node of no ring is inserted behind a node of one of them. -/
theorem insert {before : ν}
    (hsplit : lists k = front ++ before :: back) (hstorable : Storable σ node) (hnull : node ≠ null σ)
    (hfresh : ∀ l, ∀ x ∈ lists l, Apart σ node x) :
    Rings (intrusiveListInsert s before node) heads
      (update lists k (front ++ before :: node :: back)) := by
  have hold := h.queue k
  rw [hsplit] at hold
  have hrotated : Ring s (before :: (back ++ front)) := hold.ring.rotate
  have hinserted : Ring (intrusiveListInsert s before node) (before :: node :: (back ++ front)) := by
    refine intrusive_list_insert_ring hrotated hstorable hnull fun x hx => hfresh k x ?_
    rw [hsplit]
    simp only [List.mem_append, List.mem_cons] at hx ⊢
    tauto
  have hqueue : Queue (intrusiveListInsert s before node) (heads k) (front ++ before :: node :: back) := by
    have hsame : Ring (intrusiveListInsert s before node) ((before :: node :: back) ++ front) := hinserted
    refine ⟨hsame.rotate, ?_⟩
    rw [hold.head_eq]
    cases front with
    | nil => rfl
    | cons first front => rfl
  have hapart : ∀ l, l ≠ k → ∀ x ∈ front ++ before :: node :: back, ∀ y ∈ lists l, Apart σ x y := by
    intro l hne x hx
    refine h.apart_cons hfresh l hne x ?_
    rw [hsplit]
    simp only [List.mem_append, List.mem_cons] at hx ⊢
    tauto
  have hmem : before ∈ lists k := by simp [hsplit]
  have hnew := h.replace hqueue hapart (h.insert_others hmem hfresh)
  rwa [update_eq_self] at hnew

theorem delete (hmem : node ∈ lists k) :
    Rings (intrusiveListDelete s (heads k) node).1
      (update heads k (intrusiveListDelete s (heads k) node).2)
      (update lists k ((lists k).erase node)) := by
  obtain ⟨front, back, hsplit⟩ := List.append_of_mem hmem
  have hqueue := h.queue k
  rw [hsplit] at hqueue
  refine h.replace ?_ h.apart_erase (h.delete_others hmem)
  rw [h.erase_eq hsplit]
  exact intrusive_list_delete_queue hqueue

/-- A node of one ring is unlinked, and its owner moves the head on if it was the head. -/
theorem unlink_node (hmem : node ∈ lists k) :
    Rings (intrusiveListUnlinkNode s node)
      (update heads k (intrusiveListDelete s (heads k) node).2)
      (update lists k ((lists k).erase node)) := by
  obtain ⟨front, back, hsplit⟩ := List.append_of_mem hmem
  have hdeleted := (h.delete hmem).queue k
  rw [update_self, update_self, h.erase_eq hsplit] at hdeleted
  refine h.replace ?_ h.apart_erase (h.unlink_node_others hmem)
  rw [h.erase_eq hsplit]
  refine ⟨?_, hdeleted.head_eq⟩
  have hring : Ring s (node :: (back ++ front)) := by
    have hold := (h.queue k).ring
    rw [hsplit] at hold
    exact hold.rotate
  by_cases hrest : back ++ front = []
  · obtain ⟨rfl, rfl⟩ := List.append_eq_nil_iff.mp hrest
    exact Ring.nil
  · exact (intrusive_list_unlink_node_ring hring hrest).rotate

theorem insert_sorted_singleton (compare : ν → ν → Bool) (fuel : Nat)
    (hlist : lists k = [head]) (hstorable : Storable σ node) (hnull : node ≠ null σ)
    (hfresh : ∀ l, ∀ x ∈ lists l, Apart σ node x) :
    ∃ t first, intrusiveListInsertSorted (fuel + 1) s head node compare = some (t, first) ∧
      Rings t (update heads k first)
        (update lists k (if compare head node then [node, head] else [head, node])) := by
  have hring : Ring s [head] := by
    have hold := (h.queue k).ring
    rwa [hlist] at hold
  have hhead : head ∈ lists k := by simp [hlist]
  obtain ⟨t, first, hinsert, hqueue, hwrites⟩ := intrusive_list_insert_sorted_singleton
    compare fuel hring hstorable hnull (hfresh k head hhead)
  refine ⟨t, first, hinsert, h.replace hqueue ?_ ?_⟩
  · intro l hne x hx y hy
    have hcases : x = node ∨ x = head := by
      split at hx
      · simpa using hx
      · simpa [or_comm] using hx
    rcases hcases with rfl | rfl
    · exact hfresh l y hy
    · exact h.apart k l hne.symm x hhead y hy
  · intro l hne y hy
    have hnode := hfresh l y hy
    have hold := h.apart k l hne.symm head hhead y hy
    rw [hwrites]
    constructor
    · rw [next_setNext_apart hold, next_setPrev_apart hold, next_setPrev_apart hnode,
        next_setNext_apart hnode]
    · rw [prev_setNext_apart hold, prev_setPrev_apart hold, prev_setPrev_apart hnode,
        prev_setNext_apart hnode]

end Rings

/-! ## Which node is in which ring -/

/-- Every member is in the list of its place and in no other, and only members are in lists. -/
def Filed (lists : κ → List ν) (members : ν → Prop) (place : ν → κ) : Prop :=
  ∀ k x, x ∈ lists k ↔ members x ∧ place x = k

namespace Filed

omit [LinkStore σ ν] [LawfulLinkStore σ ν]

variable {lists : κ → List ν} {members : ν → Prop} {place : ν → κ} {k : κ} {node : ν}

theorem congr (h : Filed lists members place) {others : ν → Prop}
    (hmembers : ∀ x, others x ↔ members x) : Filed lists others place := by
  intro k x
  rw [h k x, hmembers x]

variable [DecidableEq κ]

theorem reorder (h : Filed lists members place) (k : κ) (nodes : List ν)
    (hnodes : ∀ x, x ∈ nodes ↔ x ∈ lists k) :
    Filed (update lists k nodes) members place := by
  intro l x
  by_cases heq : l = k
  · subst heq
    rw [update_self, hnodes x]
    exact h l x
  · rw [update_of_ne heq]
    exact h l x

variable [DecidableEq ν]

theorem push (h : Filed lists members place) (hnew : ¬ members node) :
    Filed (update lists k (node :: lists k)) (fun x => x = node ∨ members x)
      (update place node k) := by
  intro l x
  by_cases hx : x = node
  · subst hx
    rw [update_self]
    by_cases heq : l = k
    · simp [heq]
    · rw [update_of_ne heq]
      simp [h l x, hnew, Ne.symm heq]
  · rw [update_of_ne hx]
    by_cases heq : l = k
    · subst heq
      simp [hx, h l x]
    · rw [update_of_ne heq]
      simp [hx, h l x]

theorem erase (h : Filed lists members place) (hnodup : (lists k).Nodup)
    (hplace : place node = k) :
    Filed (update lists k ((lists k).erase node)) (fun x => x ≠ node ∧ members x)
      place := by
  intro l x
  by_cases heq : l = k
  · subst heq
    rw [update_self, hnodup.mem_erase_iff, h l x]
    tauto
  · rw [update_of_ne heq, h l x]
    have hne : place x = l → x ≠ node := by
      rintro hx rfl
      exact heq (hx.symm.trans hplace)
    tauto

end Filed

end Otrix
