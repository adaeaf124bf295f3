import Otrix.Common.Rings
import Otrix.Foundation.Run

/-!
# Intrusive rings are sequences

Owners keep head pointers and work on their rings with the functions of
`common/list.h`. `RingHeap` has the links and the heads, and its step calls the
functions. `Sequences` says what the rings are for: every owner has a finite
sequence of nodes, and an operation changes one of them.

A node enters a ring when it is in none. Where its old links point does not
matter: a node that was unlinked keeps them until they are overwritten. The main
theorem follows both descriptions through any sequence of operations: read
forward from its head, each ring is the sequence of its owner in every state.
-/

namespace Otrix

open Linked Machine

universe u

section

variable {σ ν : Type u} {κ : Type*}

/-- An operation of an owner. `init` prepares a node, `create` makes a ring of a node that it
initialises, and `rehead` lets the owner take another member as its head. -/
inductive RingOp (κ : Type*) (ν : Type u) where
  | init (node : ν)
  | create (ring : κ) (node : ν)
  | pushBack (ring : κ) (node : ν)
  | insert (ring : κ) (before node : ν)
  | unlinkNode (ring : κ) (node : ν)
  | delete (ring : κ) (node : ν)
  | rehead (ring : κ) (node : ν)

/-- The ring that an operation works on. -/
def RingOp.ring : RingOp κ ν → Option κ
  | .init _ => none
  | .create ring _ | .pushBack ring _ | .insert ring _ _ | .unlinkNode ring _ | .delete ring _
  | .rehead ring _ => some ring

/-- The links of all nodes, and the head of every owner. -/
structure RingHeap (σ : Type u) (κ : Type*) (ν : Type u) where
  links : σ
  heads : κ → ν

variable [DecidableEq κ] [DecidableEq ν]

section

variable [LinkStore σ ν]

/-- The head of an owner that unlinks a node itself: it moves on when the node was the head. -/
def headWithout (s : σ) (head node : ν) : ν :=
  if node = head then
    if node = next s node then null σ else next s node
  else head

omit [DecidableEq κ] in
theorem intrusive_list_delete_snd (s : σ) (head node : ν) :
    (intrusiveListDelete s head node).2 = headWithout s head node := by
  unfold intrusiveListDelete headWithout
  split
  · split
    · rfl
    · rfl
  · rfl

/-- One operation on the links. `push_back` gives an empty ring its head, and leaves the head of
any other ring where it is. -/
def RingHeap.step (heap : RingHeap σ κ ν) : RingOp κ ν → RingHeap σ κ ν
  | .init node => { heap with links := intrusiveListInit heap.links node }
  | .create ring node =>
    ⟨intrusiveListInit heap.links node, Function.update heap.heads ring node⟩
  | .pushBack ring node =>
    let head := heap.heads ring
    let pushed := intrusiveListPushBack heap.links head node
    ⟨pushed.1, Function.update heap.heads ring (if head = null σ then pushed.2 else head)⟩
  | .insert _ before node => { heap with links := intrusiveListInsert heap.links before node }
  | .unlinkNode ring node =>
    ⟨intrusiveListUnlinkNode heap.links node,
      Function.update heap.heads ring (headWithout heap.links (heap.heads ring) node)⟩
  | .delete ring node =>
    let deleted := intrusiveListDelete heap.links (heap.heads ring) node
    ⟨deleted.1, Function.update heap.heads ring deleted.2⟩
  | .rehead ring node => { heap with heads := Function.update heap.heads ring node }

end

/-! ## What the rings are for -/

/-- A sequence with a node right behind another. -/
def insertBehind (before node : ν) : List ν → List ν
  | [] => []
  | x :: nodes => if x = before then x :: node :: nodes else x :: insertBehind before node nodes

/-- A circular sequence, read from one of its nodes on. -/
def readFrom (node : ν) (nodes : List ν) : List ν :=
  nodes.dropWhile (· ≠ node) ++ nodes.takeWhile (· ≠ node)

/-- One operation on the sequences. -/
def Sequences.step (lists : κ → List ν) : RingOp κ ν → κ → List ν
  | .init _ => lists
  | .create ring node => Function.update lists ring [node]
  | .pushBack ring node => Function.update lists ring (lists ring ++ [node])
  | .insert ring before node => Function.update lists ring (insertBehind before node (lists ring))
  | .unlinkNode ring node | .delete ring node =>
    Function.update lists ring ((lists ring).erase node)
  | .rehead ring node => Function.update lists ring (readFrom node (lists ring))

end

/-- A collection of nodes to make rings of: no node is null, each can be referred to by a link, and
no two of them share storage. -/
structure NodeSet (σ ν : Type u) [LinkStore σ ν] [LawfulLinkStore σ ν] where
  mem : ν → Prop
  nonnull : ∀ x, mem x → x ≠ null σ
  storable : ∀ x, mem x → Storable σ x
  apart : ∀ x y, mem x → mem y → x ≠ y → Apart σ x y

section

variable {σ ν : Type u} {κ : Type*} [LinkStore σ ν] [LawfulLinkStore σ ν]

/-- What the owners see to. A node that is pushed or inserted is in no ring, a node that is unlinked,
deleted or used as a place is a member of the ring, and a node that is initialised has no ring in
common with another node. -/
def Sequences.Allowed (nodes : NodeSet σ ν) (lists : κ → List ν) : RingOp κ ν → Prop
  | .init node => nodes.mem node ∧ ∀ k, node ∈ lists k → lists k = [node]
  | .create ring node => nodes.mem node ∧ (∀ k, node ∉ lists k) ∧ lists ring = []
  | .pushBack _ node => nodes.mem node ∧ ∀ k, node ∉ lists k
  | .insert ring before node => nodes.mem node ∧ (∀ k, node ∉ lists k) ∧ before ∈ lists ring
  | .unlinkNode ring node | .delete ring node | .rehead ring node => node ∈ lists ring

variable [DecidableEq ν]

/-- The nodes from `current` on, until the head comes round again. -/
def forwardFrom (s : σ) (head : ν) : Nat → ν → List ν
  | 0, _ => []
  | fuel + 1, current =>
    current :: if next s current = head then [] else forwardFrom s head fuel (next s current)

/-- The forward traversal of a ring from its head. -/
def forward (s : σ) (head : ν) (fuel : Nat) : List ν :=
  if head = null σ then [] else forwardFrom s head fuel head

/-- The rings implement the sequences: they are circular doubly linked lists, each node is in at most
one of them and in no place twice, and what is read from a head is the sequence of its owner. -/
structure Implements (heap : RingHeap σ κ ν) (lists : κ → List ν) : Prop where
  next_prev : ∀ k, ∀ x ∈ lists k, prev heap.links x ∈ lists k ∧ next heap.links (prev heap.links x) = x
  prev_next : ∀ k, ∀ x ∈ lists k, next heap.links x ∈ lists k ∧ prev heap.links (next heap.links x) = x
  nodup : ∀ k, (lists k).Nodup
  one_ring : ∀ k l x, x ∈ lists k → x ∈ lists l → k = l
  head_eq_null_iff : ∀ k, heap.heads k = null σ ↔ lists k = []
  forward_eq : ∀ k fuel, (lists k).length ≤ fuel → forward heap.links (heap.heads k) fuel = lists k

/-- A traversal that has come to a node of a ring reads the rest of the ring. -/
theorem forward_from_eq {s : σ} {head : ν} {front back : List ν} {current : ν} {fuel : Nat}
    (h : Queue s head (front ++ current :: back)) (hfuel : back.length < fuel) :
    forwardFrom s head fuel current = current :: back := by
  induction back generalizing front current fuel with
  | nil =>
    obtain ⟨fuel, rfl⟩ := Nat.exists_eq_add_one_of_ne_zero (Nat.ne_zero_of_lt hfuel)
    have hround : next s current = head := by
      rw [h.ring.next_eq, h.head_eq]
      cases front with
      | nil => rfl
      | cons first front => rfl
    rw [forwardFrom, if_pos hround]
  | cons second back ih =>
    obtain ⟨fuel, rfl⟩ := Nat.exists_eq_add_one_of_ne_zero (Nat.ne_zero_of_lt hfuel)
    have hnext : next s current = second := h.ring.next_eq
    -- the head is in front of the second node, and no node is there twice
    have hne : second ≠ head := by
      intro heq
      have hnodup := h.ring.nodup
      have hhead := h.head_eq
      cases front with
      | nil =>
        have hcurrent : head = current := hhead
        simp [← hcurrent, heq] at hnodup
      | cons first front =>
        have hfirst : head = first := hhead
        simp [← hfirst, heq] at hnodup
    have hrest : Queue s head ((front ++ [current]) ++ second :: back) := by
      rwa [List.append_assoc]
    rw [forwardFrom, hnext, if_neg hne, ih hrest (Nat.lt_of_succ_lt_succ hfuel)]

theorem Rings.implements {heap : RingHeap σ κ ν} {lists : κ → List ν}
    (h : Rings heap.links heap.heads lists) : Implements heap lists where
  next_prev k _ hx := (h.queue k).ring.next_prev hx
  prev_next k _ hx := (h.queue k).ring.prev_next hx
  nodup k := (h.queue k).ring.nodup
  one_ring k l x hk hl := by
    by_contra hne
    exact apart_ne (h.apart k l hne x hk x hl) rfl
  head_eq_null_iff k := (h.queue k).head_eq_null_iff
  forward_eq k fuel hfuel := by
    have hqueue := h.queue k
    by_cases hhead : heap.heads k = null σ
    · rw [forward, if_pos hhead, hqueue.head_eq_null_iff.mp hhead]
    · obtain ⟨rest, hlist⟩ := hqueue.exists_cons hhead
      rw [hlist] at hqueue hfuel
      have hread : forwardFrom heap.links (heap.heads k) fuel (heap.heads k) = heap.heads k :: rest :=
        @forward_from_eq _ _ _ _ _ _ _ [] _ _ _ hqueue hfuel
      rw [forward, if_neg hhead, hread, hlist]

/-! ## Sequences with a node in the middle -/

omit [LinkStore σ ν] [LawfulLinkStore σ ν] in
theorem insert_behind_eq {before node : ν} {front : List ν} (back : List ν) (hfront : before ∉ front) :
    insertBehind before node (front ++ before :: back) = front ++ before :: node :: back := by
  induction front with
  | nil => simp [insertBehind]
  | cons first front ih =>
    have hfirst : first ≠ before := (List.ne_of_not_mem_cons hfront).symm
    rw [List.cons_append, insertBehind, if_neg hfirst, ih (List.not_mem_of_not_mem_cons hfront),
      List.cons_append]

omit [LinkStore σ ν] [LawfulLinkStore σ ν] in
theorem read_from_eq {node : ν} {front : List ν} (back : List ν) (hfront : node ∉ front) :
    readFrom node (front ++ node :: back) = node :: back ++ front := by
  have hpass : ∀ x ∈ front, decide (x ≠ node) = true := by
    intro x hx
    exact decide_eq_true fun heq => hfront (heq ▸ hx)
  rw [readFrom, List.dropWhile_append_of_pos hpass, List.takeWhile_append_of_pos hpass,
    List.dropWhile_cons_of_neg (by simp), List.takeWhile_cons_of_neg (by simp), List.append_nil]

omit [LinkStore σ ν] [LawfulLinkStore σ ν] in
theorem mem_of_mem_insert_behind {before node x : ν} {list : List ν}
    (h : x ∈ insertBehind before node list) : x = node ∨ x ∈ list := by
  induction list with
  | nil => cases h
  | cons first list ih =>
    rw [insertBehind] at h
    split at h
    · rw [List.mem_cons, List.mem_cons] at h
      rw [List.mem_cons]
      exact or_left_comm.mp h
    · rcases List.mem_cons.mp h with rfl | h
      · exact Or.inr List.mem_cons_self
      · exact (ih h).imp_right (List.mem_cons_of_mem first)

omit [LinkStore σ ν] [LawfulLinkStore σ ν] in
theorem mem_of_mem_read_from {node x : ν} {list : List ν} (h : x ∈ readFrom node list) : x ∈ list :=
  (List.mem_append.mp h).elim (fun h => (List.dropWhile_sublist _).subset h)
    fun h => (List.takeWhile_sublist _).subset h

/-! ## The refinement -/

/-- Both descriptions side by side. -/
structure RingSystem (σ : Type u) (κ : Type*) (ν : Type u) where
  heap : RingHeap σ κ ν
  lists : κ → List ν

variable [DecidableEq κ]

/-- An operation on both. -/
def RingSystem.step (sys : RingSystem σ κ ν) (op : RingOp κ ν) : Option (RingSystem σ κ ν) :=
  some ⟨sys.heap.step op, Sequences.step sys.lists op⟩

/-- The nodes of the rings that an operation does not work on keep their links. -/
def RingSystem.Untouched (sys : RingSystem σ κ ν) (op : RingOp κ ν) : Prop :=
  ∀ k, op.ring ≠ some k → ∀ x ∈ sys.lists k,
    next (sys.heap.step op).links x = next sys.heap.links x ∧
      prev (sys.heap.step op).links x = prev sys.heap.links x

/-- The rings are those of the sequences, and are made of nodes of the collection. -/
structure RingSystem.Sound (nodes : NodeSet σ ν) (sys : RingSystem σ κ ν) : Prop where
  rings : Rings sys.heap.links sys.heap.heads sys.lists
  members : ∀ k, ∀ x ∈ sys.lists k, nodes.mem x

section

variable {nodes : NodeSet σ ν} {sys : RingSystem σ κ ν} {node : ν} {ring : κ}

omit [DecidableEq ν] [DecidableEq κ] in
theorem RingSystem.Sound.fresh (h : sys.Sound nodes) (hnode : nodes.mem node)
    (hfree : ∀ k, node ∉ sys.lists k) : ∀ k, ∀ x ∈ sys.lists k, Apart σ node x :=
  fun k x hx => nodes.apart node x hnode (h.members k x hx) fun heq => hfree k (heq ▸ hx)

omit [LinkStore σ ν] [LawfulLinkStore σ ν] [DecidableEq ν] in
theorem members_update {mem : ν → Prop} {lists : κ → List ν} (h : ∀ k, ∀ x ∈ lists k, mem x)
    {list : List ν} (hlist : ∀ x ∈ list, mem x) :
    ∀ k, ∀ x ∈ Function.update lists ring list k, mem x :=
  (Function.forall_update_iff lists fun _ list => ∀ x ∈ list, mem x).mpr ⟨hlist, fun k _ => h k⟩

/-- An operation that is allowed leaves the sequences in the collection. -/
theorem Sequences.step_members {lists : κ → List ν} {op : RingOp κ ν}
    (h : ∀ k, ∀ x ∈ lists k, nodes.mem x) (hallowed : Sequences.Allowed nodes lists op) :
    ∀ k, ∀ x ∈ Sequences.step lists op k, nodes.mem x := by
  cases op with
  | init node => exact h
  | create ring node => exact members_update h (by simpa using hallowed.1)
  | pushBack ring node =>
    refine members_update h fun x hx => ?_
    rcases List.mem_append.mp hx with hx | hx
    · exact h ring x hx
    · exact List.mem_singleton.mp hx ▸ hallowed.1
  | insert ring before node =>
    refine members_update h fun x hx => ?_
    rcases mem_of_mem_insert_behind hx with rfl | hx
    · exact hallowed.1
    · exact h ring x hx
  | unlinkNode ring node | delete ring node =>
    exact members_update h fun x hx => h ring x (List.mem_of_mem_erase hx)
  | rehead ring node => exact members_update h fun x hx => h ring x (mem_of_mem_read_from hx)

omit [LawfulLinkStore σ ν] in
theorem RingSystem.untouched_of_keeps_others {op : RingOp κ ν} (hring : op.ring = some ring)
    (hkeeps : KeepsOthers sys.heap.links (sys.heap.step op).links sys.lists ring) :
    sys.Untouched op := by
  intro k hk x hx
  refine hkeeps k ?_ x hx
  rintro rfl
  exact hk hring

/-- One operation keeps the refinement, and touches one ring. -/
theorem RingSystem.Sound.step (h : sys.Sound nodes) {op : RingOp κ ν}
    (hallowed : Sequences.Allowed nodes sys.lists op) :
    RingSystem.Sound nodes ⟨sys.heap.step op, Sequences.step sys.lists op⟩ ∧ sys.Untouched op := by
  have hrings := h.rings
  have hmembers := Sequences.step_members h.members hallowed
  cases op with
  | init node =>
    obtain ⟨hnode, halone⟩ := hallowed
    have hfree : ∀ k, ∀ x ∈ sys.lists k, Apart σ node x ∨ sys.lists k = [node] := by
      intro k x hx
      by_cases heq : x = node
      · exact Or.inr (halone k (heq ▸ hx))
      · exact Or.inl (nodes.apart node x hnode (h.members k x hx) (Ne.symm heq))
    have hlinks := hrings.init_links hfree
    exact ⟨⟨hrings.congr hlinks, hmembers⟩, fun k _ => hlinks k⟩
  | create ring node =>
    obtain ⟨hnode, hfree, hempty⟩ := hallowed
    have hfresh := h.fresh hnode hfree
    have hlinks := hrings.init_links fun k x hx => Or.inl (hfresh k x hx)
    have hring : Ring (intrusiveListInit sys.heap.links node) [node] :=
      intrusive_list_init_ring (nodes.storable node hnode) (nodes.nonnull node hnode)
    refine ⟨⟨hrings.replace (Queue.cons hring) ?_ fun k _ => hlinks k, hmembers⟩,
      fun k _ => hlinks k⟩
    intro k _ x hx y hy
    rw [List.mem_singleton.mp hx]
    exact hfresh k y hy
  | pushBack ring node =>
    obtain ⟨hnode, hfree⟩ := hallowed
    have hfresh := h.fresh hnode hfree
    exact ⟨⟨hrings.push_back_keep ring node (nodes.storable node hnode) (nodes.nonnull node hnode)
      hfresh, hmembers⟩, untouched_of_keeps_others rfl (hrings.push_back_others hfresh)⟩
  | insert ring before node =>
    obtain ⟨hnode, hfree, hmem⟩ := hallowed
    have hfresh := h.fresh hnode hfree
    obtain ⟨front, back, hsplit⟩ := List.append_of_mem hmem
    have hlist : insertBehind before node (sys.lists ring) = front ++ before :: node :: back := by
      rw [hsplit, insert_behind_eq back (hrings.not_mem_front hsplit)]
    have hinserted := hrings.insert hsplit (nodes.storable node hnode) (nodes.nonnull node hnode) hfresh
    rw [← hlist] at hinserted
    exact ⟨⟨hinserted, hmembers⟩,
      untouched_of_keeps_others rfl (hrings.insert_others hmem hfresh)⟩
  | unlinkNode ring node =>
    have hunlinked := hrings.unlink_node hallowed
    rw [intrusive_list_delete_snd] at hunlinked
    exact ⟨⟨hunlinked, hmembers⟩,
      untouched_of_keeps_others rfl (hrings.unlink_node_others hallowed)⟩
  | delete ring node =>
    exact ⟨⟨hrings.delete hallowed, hmembers⟩,
      untouched_of_keeps_others rfl (hrings.delete_others hallowed)⟩
  | rehead ring node =>
    obtain ⟨front, back, hsplit⟩ := List.append_of_mem hallowed
    have hread := hrings.rehead hsplit
    rw [← read_from_eq back (hrings.not_mem_front hsplit), ← hsplit] at hread
    exact ⟨⟨hread, hmembers⟩, fun k _ x _ => ⟨rfl, rfl⟩⟩

end

/-- Owners of any number of rings start with empty ones and work on them as they are allowed to. In every
state the rings implement the sequences, and every operation leaves the nodes of the other rings alone. -/
theorem intrusive_rings_implement_sequences (nodes : NodeSet σ ν) (heap : RingHeap σ κ ν)
    (hempty : ∀ k, heap.heads k = null σ) (ops : List (RingOp κ ν))
    (hallowed : Meets RingSystem.step (fun sys op => Sequences.Allowed nodes sys.lists op)
      ⟨heap, fun _ => []⟩ ops) :
    Always RingSystem.step (fun sys => Implements sys.heap sys.lists) ⟨heap, fun _ => []⟩ ops ∧
      Meets RingSystem.step (fun sys op => sys.Untouched op) ⟨heap, fun _ => []⟩ ops := by
  have hinitial : RingSystem.Sound nodes (⟨heap, fun _ => []⟩ : RingSystem σ κ ν) := by
    refine ⟨⟨fun k => ?_, by simp⟩, by simp⟩
    show Queue heap.links (heap.heads k) []
    rw [hempty k]
    exact Queue.nil
  have hstep : ∀ (sys : RingSystem σ κ ν) op next, sys.Sound nodes →
      Sequences.Allowed nodes sys.lists op → sys.step op = some next → next.Sound nodes := by
    rintro sys op next h hop hnext
    obtain rfl := Option.some.inj hnext
    exact (h.step hop).1
  constructor
  · have halways := always_of_meets (RingSystem.Sound nodes) hstep hinitial hallowed
    exact halways.imp fun sys h => h.rings.implements
  · exact Meets.imp (RingSystem.Sound nodes) (fun sys op h hop => (h.step hop).2) hstep hinitial
      hallowed

end

/-- The records of a record store, all but the null reference. -/
def recordNodes : NodeSet Links Nat where
  mem x := x ≠ 0
  nonnull _ h := h
  storable _ _ := trivial
  apart _ _ _ _ h := h

/-- Two owners. The first node moves from one ring to the other with its old links. -/
def twoOwnersOps : List (RingOp Bool Nat) :=
  [.create false 1, .pushBack false 2, .insert false 1 3, .delete false 1, .pushBack true 1,
    .rehead false 2, .pushBack false 4, .unlinkNode false 2, .init 2, .insert true 1 2]

/-- No rings yet, and links that point nowhere. -/
def looseHeap : RingHeap Links Bool Nat :=
  ⟨⟨fun _ => 9, fun _ => 9⟩, fun _ => 0⟩

/-- The rings of the two owners are sequences all the time. -/
theorem two_owners_implement_sequences :
    Meets RingSystem.step (fun sys op => Sequences.Allowed recordNodes sys.lists op)
        ⟨looseHeap, fun _ => []⟩ twoOwnersOps ∧
      Always RingSystem.step (fun sys => Implements sys.heap sys.lists)
        ⟨looseHeap, fun _ => []⟩ twoOwnersOps := by
  have hallowed : Meets RingSystem.step
      (fun sys op => Sequences.Allowed recordNodes sys.lists op)
      ⟨looseHeap, fun _ => []⟩ twoOwnersOps := by
    simp [Meets, RingSystem.step, twoOwnersOps, Sequences.Allowed, Sequences.step, recordNodes,
      insertBehind, readFrom, Function.update]
  exact ⟨hallowed, (intrusive_rings_implement_sequences recordNodes looseHeap (fun _ => rfl) twoOwnersOps
    hallowed).1⟩

end Otrix
