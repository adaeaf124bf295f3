import Mathlib.Data.List.Chain
import Mathlib.Logic.Function.Basic

/-!
# Circular doubly linked lists over a store of links

A `LinkStore` keeps a `next` and a `prev` link in every node. The laws in
`LawfulLinkStore` say when a write to one node is seen through another: nodes
that are `Apart` share no storage, and a `Storable` node reference survives
being written to a link and read back. A store of records and a flat byte
memory are both instances.

`Ring store nodes` says that the nodes form one circular list in this order.
Every result about a position in the ring is stated for the first node, and
`Ring.rotate` moves any node to the front.
-/

namespace Linked

/-- Storage of node links, with a distinguished null reference. -/
class LinkStore (σ : Type*) (ν : outParam (Type*)) where
  null : ν
  next : σ → ν → ν
  prev : σ → ν → ν
  setNext : σ → ν → ν → σ
  setPrev : σ → ν → ν → σ

export LinkStore (null next prev setNext setPrev)

/-- The laws of a link store. `Apart` nodes share no storage. -/
class LawfulLinkStore (σ : Type*) (ν : outParam (Type*)) [LinkStore σ ν] where
  Apart : ν → ν → Prop
  Storable : ν → Prop
  apart_symm : ∀ {a b : ν}, Apart a b → Apart b a
  apart_ne : ∀ {a b : ν}, Apart a b → a ≠ b
  next_setNext_self : ∀ {s : σ} {a v : ν}, Storable v → next (setNext s a v) a = v
  next_setNext_apart : ∀ {s : σ} {a b v : ν}, Apart a b → next (setNext s a v) b = next s b
  next_setPrev_self : ∀ (s : σ) (a v : ν), next (setPrev s a v) a = next s a
  next_setPrev_apart : ∀ {s : σ} {a b v : ν}, Apart a b → next (setPrev s a v) b = next s b
  prev_setPrev_self : ∀ {s : σ} {a v : ν}, Storable v → prev (setPrev s a v) a = v
  prev_setPrev_apart : ∀ {s : σ} {a b v : ν}, Apart a b → prev (setPrev s a v) b = prev s b
  prev_setNext_self : ∀ (s : σ) (a v : ν), prev (setNext s a v) a = prev s a
  prev_setNext_apart : ∀ {s : σ} {a b v : ν}, Apart a b → prev (setNext s a v) b = prev s b

export LawfulLinkStore (Apart Storable apart_symm apart_ne next_setNext_self next_setNext_apart
  next_setPrev_self next_setPrev_apart prev_setPrev_self prev_setPrev_apart prev_setNext_self
  prev_setNext_apart)

/-- An observation of the store that no link write to the node can change. Frame conditions are
stated with it, for links of other nodes and for anything else that the store holds. -/
def Unseen {σ ν β : Type*} [LinkStore σ ν] (observe : σ → β) (node : ν) : Prop :=
  ∀ (s : σ) (v : ν), observe (setNext s node v) = observe s ∧ observe (setPrev s node v) = observe s

section

variable {σ ν : Type*} [LinkStore σ ν]

/-- Two nodes linked to each other in both directions. -/
def Link (s : σ) (a b : ν) : Prop :=
  next s a = b ∧ prev s b = a

/-- A chain survives when its nodes keep their links, except the outermost two. -/
theorem chain_congr {s t : σ} {nodes : List ν} (h : nodes.IsChain (Link s))
    (hnext : ∀ x ∈ nodes.dropLast, next t x = next s x)
    (hprev : ∀ x ∈ nodes.tail, prev t x = prev s x) : nodes.IsChain (Link t) := by
  induction nodes with
  | nil => exact .nil
  | cons a rest ih =>
    cases rest with
    | nil => exact .singleton _
    | cons b rest =>
      obtain ⟨⟨hab, hba⟩, hrest⟩ := List.isChain_cons_cons.mp h
      refine List.isChain_cons_cons.mpr ⟨⟨?_, ?_⟩, ih hrest ?_ ?_⟩
      · rw [hnext a (by simp), hab]
      · rw [hprev b (by simp), hba]
      · intro x hx
        exact hnext x (by simp [List.dropLast, hx])
      · intro x hx
        exact hprev x (by simpa using Or.inr hx)

/-- The forward links determine a chain up to the first node that ends it. -/
theorem chain_unique {s : σ} {a b : ν} {first second : List ν}
    (h : (a :: (first ++ [b])).IsChain (Link s)) (h' : (a :: (second ++ [b])).IsChain (Link s))
    (hfirst : b ∉ first) (hsecond : b ∉ second) : first = second := by
  induction first generalizing a second with
  | nil =>
    cases second with
    | nil => rfl
    | cons c second =>
      have hnext := (List.isChain_cons_cons.mp h).1.1
      have hnext' := (List.isChain_cons_cons.mp h').1.1
      exact absurd (hnext.symm.trans hnext') fun heq => hsecond (heq ▸ List.mem_cons_self)
  | cons c first ih =>
    obtain ⟨⟨hnext, _⟩, hrest⟩ := List.isChain_cons_cons.mp h
    cases second with
    | nil =>
      have hnext' := (List.isChain_cons_cons.mp h').1.1
      exact absurd (hnext'.symm.trans hnext) fun heq => hfirst (heq ▸ List.mem_cons_self)
    | cons d second =>
      obtain ⟨⟨hnext', _⟩, hrest'⟩ := List.isChain_cons_cons.mp h'
      obtain rfl : c = d := hnext.symm.trans hnext'
      rw [ih hrest hrest' (List.not_mem_of_not_mem_cons hfirst)
        (List.not_mem_of_not_mem_cons hsecond)]

end

section

variable {σ ν : Type*} [LinkStore σ ν] [LawfulLinkStore σ ν]

theorem next_setPrev {s : σ} {a b v : ν} (h : a = b ∨ Apart σ a b) :
    next (setPrev s a v) b = next s b := by
  rcases h with rfl | h
  · exact next_setPrev_self s a v
  · exact next_setPrev_apart h

theorem prev_setNext {s : σ} {a b v : ν} (h : a = b ∨ Apart σ a b) :
    prev (setNext s a v) b = prev s b := by
  rcases h with rfl | h
  · exact prev_setNext_self s a v
  · exact prev_setNext_apart h

theorem unseen_next {a b : ν} (h : Apart σ a b) : Unseen (fun s : σ => next s b) a :=
  fun _ _ => ⟨next_setNext_apart h, next_setPrev_apart h⟩

theorem unseen_prev {a b : ν} (h : Apart σ a b) : Unseen (fun s : σ => prev s b) a :=
  fun _ _ => ⟨prev_setNext_apart h, prev_setPrev_apart h⟩

/-- The nodes form one circular doubly linked list in this order. The empty list is the ring of
a null head. -/
structure Ring (s : σ) (nodes : List ν) : Prop where
  chain : (nodes ++ nodes.head?.toList).IsChain (Link s)
  apart : nodes.Pairwise (Apart σ)
  storable : ∀ x ∈ nodes, Storable σ x
  nonnull : ∀ x ∈ nodes, x ≠ null σ

namespace Ring

variable {s t : σ} {nodes rest front back : List ν} {a b node : ν}

theorem nodup (h : Ring s nodes) : nodes.Nodup :=
  h.apart.imp apart_ne

theorem apart_of_ne (h : Ring s nodes) (ha : a ∈ nodes) (hb : b ∈ nodes) (hne : a ≠ b) :
    Apart σ a b :=
  have : Std.Symm (fun x y : ν => Apart σ x y) := ⟨fun _ _ => apart_symm⟩
  h.apart.forall ha hb hne

theorem eq_or_apart (h : Ring s nodes) (ha : a ∈ nodes) (hb : b ∈ nodes) :
    a = b ∨ Apart σ a b := by
  by_cases hne : a = b
  · exact Or.inl hne
  · exact Or.inr (h.apart_of_ne ha hb hne)

theorem nil : Ring s ([] : List ν) :=
  ⟨by simp, by simp, by simp, by simp⟩

theorem singleton (hnext : next s a = a) (hprev : prev s a = a) (hstorable : Storable σ a)
    (hnull : a ≠ null σ) : Ring s [a] :=
  ⟨by simp [Link, hnext, hprev], by simp, by simpa using hstorable, by simpa using hnull⟩

/-- The chain of a nonempty ring runs from the head back to the head. -/
theorem chain_cons (h : Ring s (a :: rest)) : (a :: (rest ++ [a])).IsChain (Link s) := by
  simpa using h.chain

theorem rotate (h : Ring s (front ++ back)) : Ring s (back ++ front) := by
  refine ⟨?_, ?_, fun x hx => h.storable x (by simpa [or_comm] using hx),
    fun x hx => h.nonnull x (by simpa [or_comm] using hx)⟩
  · cases front with
    | nil => simpa using h.chain
    | cons a front =>
      cases back with
      | nil => simpa using h.chain
      | cons b back =>
        have hchain : ((a :: front) ++ b :: (back ++ [a])).IsChain (Link s) := by
          simpa using h.chain
        obtain ⟨hfirst, hsecond⟩ := List.isChain_split.mp hchain
        have hgoal : ((b :: back) ++ a :: (front ++ [b])).IsChain (Link s) :=
          List.isChain_split.mpr ⟨by simpa using hsecond, by simpa using hfirst⟩
        simpa using hgoal
  · exact (List.pairwise_append_comm (fun h => apart_symm h)).mp h.apart

theorem link_head (h : Ring s (a :: b :: rest)) : Link s a b :=
  (List.isChain_cons_cons.mp h.chain_cons).1

theorem link_last (h : Ring s (a :: (rest ++ [b]))) : Link s b a := by
  have hchain : ((a :: rest) ++ b :: a :: []).IsChain (Link s) := by
    simpa using h.chain
  exact (List.isChain_append_cons_cons.mp hchain).2.1

/-- With more than one node, the predecessor of the first node is one of the others. -/
theorem prev_mem_rest (h : Ring s (a :: rest)) (hne : rest ≠ []) : prev s a ∈ rest := by
  obtain ⟨front, last, rfl⟩ := (List.eq_nil_or_concat' rest).resolve_left hne
  rw [h.link_last.2]
  simp

theorem link_self (h : Ring s [a]) : Link s a a := by
  simpa using h.chain

theorem rest_eq_nil (h : Ring s (a :: rest)) (hself : next s a = a) : rest = [] := by
  cases rest with
  | nil => rfl
  | cons b rest =>
    have hab : b = a := h.link_head.1.symm.trans hself
    have hnodup := h.nodup
    simp [hab] at hnodup

theorem eq_of_next_self (h : Ring s nodes) (ha : a ∈ nodes) (hself : next s a = a) (hb : b ∈ nodes) :
    b = a := by
  obtain ⟨front, back, rfl⟩ := List.append_of_mem ha
  have hrotated : Ring s (a :: (back ++ front)) := h.rotate
  have hrest := hrotated.rest_eq_nil hself
  obtain ⟨hback, hfront⟩ := List.append_eq_nil_iff.mp hrest
  rw [hback, hfront] at hb
  exact List.mem_singleton.mp hb

/-- The node behind a node of a ring, which is the first one behind the last one. -/
theorem next_eq (h : Ring s (front ++ a :: back)) : next s a = (back ++ front).headD a := by
  have hring : Ring s (a :: (back ++ front)) := h.rotate
  cases hrest : back ++ front with
  | nil =>
    rw [hrest] at hring
    exact hring.link_self.1
  | cons b rest =>
    rw [hrest] at hring
    exact hring.link_head.1

/-- Every node of a ring is linked to some node of the ring. -/
theorem exists_link (h : Ring s nodes) (ha : a ∈ nodes) : ∃ b ∈ nodes, Link s a b := by
  obtain ⟨front, back, rfl⟩ := List.append_of_mem ha
  have hrotated : Ring s (a :: back ++ front) := h.rotate
  cases hrest : back ++ front with
  | nil =>
    rw [List.cons_append, hrest] at hrotated
    exact ⟨a, by simp, hrotated.link_self⟩
  | cons b rest =>
    rw [List.cons_append, hrest] at hrotated
    have hb : b ∈ back ++ front := by simp [hrest]
    exact ⟨b, by simp only [List.mem_append, List.mem_cons] at hb ⊢; tauto, hrotated.link_head⟩

theorem prev_next (h : Ring s nodes) (ha : a ∈ nodes) :
    next s a ∈ nodes ∧ prev s (next s a) = a := by
  obtain ⟨b, hb, hlink⟩ := h.exists_link ha
  rw [hlink.1]
  exact ⟨hb, hlink.2⟩

/-- Every node of a ring is linked from some node of the ring. -/
theorem exists_link_to (h : Ring s nodes) (ha : a ∈ nodes) : ∃ b ∈ nodes, Link s b a := by
  obtain ⟨front, back, rfl⟩ := List.append_of_mem ha
  have hrotated : Ring s (a :: (back ++ front)) := h.rotate
  rcases List.eq_nil_or_concat' (back ++ front) with hrest | ⟨rest, b, hrest⟩
  · rw [hrest] at hrotated
    exact ⟨a, by simp, hrotated.link_self⟩
  · rw [hrest] at hrotated
    have hb : b ∈ back ++ front := by simp [hrest]
    exact ⟨b, by simp only [List.mem_append, List.mem_cons] at hb ⊢; tauto, hrotated.link_last⟩

theorem next_prev (h : Ring s nodes) (ha : a ∈ nodes) :
    prev s a ∈ nodes ∧ next s (prev s a) = a := by
  obtain ⟨b, hb, hlink⟩ := h.exists_link_to ha
  rw [hlink.2]
  exact ⟨hb, hlink.1⟩

theorem congr (h : Ring s nodes) (hnext : ∀ x ∈ nodes, next t x = next s x)
    (hprev : ∀ x ∈ nodes, prev t x = prev s x) : Ring t nodes := by
  refine ⟨chain_congr h.chain ?_ ?_, h.apart, h.storable, h.nonnull⟩
  · intro x hx
    refine hnext x ?_
    cases nodes with
    | nil => simp at hx
    | cons a rest =>
      rw [List.head?_cons, Option.toList_some, List.dropLast_concat] at hx
      exact hx
  · intro x hx
    refine hprev x ?_
    cases nodes with
    | nil => simp at hx
    | cons a rest => simpa [or_comm] using hx

/-- Linking a fresh node behind the first node of a ring. -/
theorem insert_of_links (h : Ring s (a :: rest)) (hstorable : Storable σ node)
    (hnull : node ≠ null σ) (hfresh : ∀ x ∈ a :: rest, Apart σ node x)
    (hin : Link t a node) (hout : Link t node (next s a))
    (hnext : ∀ x ∈ a :: rest, a ≠ x → next t x = next s x)
    (hprev : ∀ x ∈ a :: rest, next s a ≠ x → prev t x = prev s x) : Ring t (a :: node :: rest) := by
  refine ⟨?_, ?_, ?_, ?_⟩
  · obtain ⟨hfirst, hold⟩ := List.isChain_cons.mp h.chain_cons
    have hnodup : (rest ++ [a]).Nodup := (rotate (show Ring s ([a] ++ rest) from h)).nodup
    have hkept : (rest ++ [a]).IsChain (Link t) := by
      refine chain_congr hold ?_ ?_
      · rw [List.dropLast_concat]
        refine fun x hx => hnext x (List.mem_cons_of_mem a hx) ?_
        rintro rfl
        exact (List.nodup_cons.mp h.nodup).1 hx
      · intro x hx
        refine hprev x (by simpa [or_comm] using List.mem_of_mem_tail hx) ?_
        cases hsplit : rest ++ [a] with
        | nil => simp at hsplit
        | cons after back =>
          rw [hsplit] at hnodup hfirst hx
          rw [(hfirst after rfl).1]
          rintro rfl
          exact (List.nodup_cons.mp hnodup).1 hx
    refine List.isChain_cons.mpr ⟨fun y hy => ?_, List.isChain_cons.mpr ⟨fun y hy => ?_, hkept⟩⟩
    · exact Option.some.inj hy ▸ hin
    · exact (hfirst y hy).1 ▸ hout
  · have hold := h.apart
    simp only [List.pairwise_cons] at hold ⊢
    refine ⟨?_, fun x hx => hfresh x (by simp [hx]), hold.2⟩
    intro x hx
    rcases List.mem_cons.mp hx with rfl | hx
    · exact apart_symm (hfresh a (by simp))
    · exact hold.1 x hx
  · intro x hx
    rcases List.mem_cons.mp hx with rfl | hx
    · exact h.storable x (by simp)
    · rcases List.mem_cons.mp hx with rfl | hx
      · exact hstorable
      · exact h.storable x (by simp [hx])
  · intro x hx
    rcases List.mem_cons.mp hx with rfl | hx
    · exact h.nonnull x (by simp)
    · rcases List.mem_cons.mp hx with rfl | hx
      · exact hnull
      · exact h.nonnull x (by simp [hx])

/-- Linking the neighbours of the first node of a ring to each other. -/
theorem erase_of_links (h : Ring s (a :: rest)) (hne : rest ≠ [])
    (hlink : Link t (rest.getLast hne) (rest.head hne))
    (hnext : ∀ x ∈ rest.dropLast, next t x = next s x)
    (hprev : ∀ x ∈ rest.tail, prev t x = prev s x) : Ring t rest := by
  have hold : rest.IsChain (Link s) :=
    List.IsChain.left_of_append (List.isChain_cons.mp h.chain_cons).2
  refine ⟨?_, (List.pairwise_cons.mp h.apart).2, fun x hx => h.storable x (by simp [hx]),
    fun x hx => h.nonnull x (by simp [hx])⟩
  have hkept : rest.IsChain (Link t) := chain_congr hold hnext hprev
  refine hkept.append ?_ ?_
  · rw [List.head?_eq_some_head hne]
    simp
  · intro x hx y hy
    rw [List.getLast?_eq_some_getLast hne] at hx
    rw [List.head?_eq_some_head hne] at hy
    simp only [Option.toList_some, List.head?_cons, Option.mem_def, Option.some.injEq] at hx hy
    exact hx ▸ hy ▸ hlink

end Ring

/-- A head pointer and the ring it points to: null for the empty ring, else the first node. -/
structure Queue (s : σ) (head : ν) (nodes : List ν) : Prop where
  ring : Ring s nodes
  head_eq : head = nodes.head?.getD (null σ)

namespace Queue

variable {s t : σ} {head node : ν} {nodes : List ν}

theorem head_eq_null_iff (h : Queue s head nodes) : head = null σ ↔ nodes = [] := by
  rw [h.head_eq]
  cases nodes with
  | nil => simp
  | cons a rest => simpa using h.ring.nonnull a (by simp)

theorem exists_cons (h : Queue s head nodes) (hhead : head ≠ null σ) :
    ∃ rest, nodes = head :: rest := by
  cases nodes with
  | nil => exact absurd h.head_eq hhead
  | cons a rest => exact ⟨rest, by rw [h.head_eq]; simp⟩

theorem nil : Queue s (null σ) [] :=
  ⟨Ring.nil, rfl⟩

theorem cons (h : Ring s (node :: nodes)) : Queue s node (node :: nodes) :=
  ⟨h, rfl⟩

theorem head_mem (h : Queue s head nodes) (hhead : head ≠ null σ) : head ∈ nodes := by
  obtain ⟨rest, hnodes⟩ := h.exists_cons hhead
  rw [hnodes]
  exact List.mem_cons_self

theorem head_ne_null (h : Queue s head nodes) (ha : a ∈ nodes) : head ≠ null σ := by
  intro hnull
  rw [h.head_eq_null_iff.mp hnull] at ha
  cases ha

theorem unique {nodes' : List ν} (h : Queue s head nodes) (h' : Queue s head nodes') :
    nodes = nodes' := by
  by_cases hhead : head = null σ
  · rw [h.head_eq_null_iff.mp hhead, h'.head_eq_null_iff.mp hhead]
  · obtain ⟨rest, rfl⟩ := h.exists_cons hhead
    obtain ⟨rest', rfl⟩ := h'.exists_cons hhead
    rw [chain_unique h.ring.chain_cons h'.ring.chain_cons
      (List.nodup_cons.mp h.ring.nodup).1 (List.nodup_cons.mp h'.ring.nodup).1]

theorem congr (h : Queue s head nodes) (hnext : ∀ x ∈ nodes, next t x = next s x)
    (hprev : ∀ x ∈ nodes, prev t x = prev s x) : Queue t head nodes :=
  ⟨h.ring.congr hnext hprev, h.head_eq⟩

end Queue

end

/-! ## Records of links -/

/-- Link storage with one record for every node, where `0` is the null reference. -/
@[ext]
structure Links where
  next : Nat → Nat
  prev : Nat → Nat

/-- Records are read and written at their own node. -/
instance : LinkStore Links Nat where
  null := 0
  next links node := links.next node
  prev links node := links.prev node
  setNext links node value := { links with next := Function.update links.next node value }
  setPrev links node value := { links with prev := Function.update links.prev node value }

@[simp] theorem null_links : null Links = 0 := rfl

/-- Distinct records share no storage, and every reference can be stored. -/
instance : LawfulLinkStore Links Nat where
  Apart first second := first ≠ second
  Storable _ := True
  apart_symm h := h.symm
  apart_ne h := h
  next_setNext_self _ := Function.update_self ..
  next_setNext_apart h := Function.update_of_ne h.symm ..
  next_setPrev_self _ _ _ := rfl
  next_setPrev_apart _ := rfl
  prev_setPrev_self _ := Function.update_self ..
  prev_setPrev_apart h := Function.update_of_ne h.symm ..
  prev_setNext_self _ _ _ := rfl
  prev_setNext_apart _ := rfl

end Linked
