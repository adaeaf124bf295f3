import Otrix.Foundation.Run

/-!
# Tables of handlers with marked free slots

A table has a fixed number of slots. A request puts its entry into the first slot that
is marked free, and a loop calls the handlers of the slots that are hit. Nothing
keeps an entry from being marked free itself: its slot is then taken by the next
request.

`Filled` says what a table looks like after a sequence of requests. From it follow
the calls of the loop, for slots that are hit by something other than the mark and
for slots that are hit by the mark.
-/

namespace HandlerTable

variable {σ ρ α : Type}

/-- Put an entry into the first free slot, if there is one. -/
def subscribe (free : σ → Bool) (entry : σ) : List σ → Option (List σ)
  | [] => none
  | slot :: slots =>
    if free slot then some (entry :: slots)
    else (subscribe free entry slots).map (slot :: ·)

/-- The calls of a loop over the slots. A call without a handler does not return. -/
def calls (hit : σ → Bool) (handler : σ → Option α) : List σ → List (Option α)
  | [] => []
  | slot :: slots =>
    if hit slot then
      match handler slot with
      | none => [none]
      | some called => some called :: calls hit handler slots
    else calls hit handler slots

attribute [local simp] subscribe calls

/-! ## Calls -/

section Calls

variable {hit : σ → Bool} {handler : σ → Option α}

theorem calls_of_missed {slots : List σ} (hmissed : ∀ slot ∈ slots, hit slot = false) :
    calls hit handler slots = [] := by
  induction slots with
  | nil => rfl
  | cons slot slots ih =>
    obtain ⟨hslot, hslots⟩ := List.forall_mem_cons.mp hmissed
    rw [calls, if_neg (Bool.not_eq_true _ ▸ hslot), ih hslots]

/-- The loop over slots that all have a handler goes on behind them. -/
theorem calls_append {front : List σ} (back : List σ)
    (hfront : ∀ slot ∈ front, handler slot ≠ none) :
    calls hit handler (front ++ back) = (front.filter hit).map handler ++ calls hit handler back := by
  induction front with
  | nil => rfl
  | cons slot front ih =>
    obtain ⟨hslot, hrest⟩ := List.forall_mem_cons.mp hfront
    obtain ⟨called, hcalled⟩ := Option.ne_none_iff_exists'.mp hslot
    by_cases hhit : hit slot = true
    · rw [List.cons_append, calls, if_pos hhit, hcalled, List.filter_cons_of_pos hhit,
        List.map_cons, hcalled, ih hrest]
      rfl
    · rw [List.cons_append, calls, if_neg hhit, List.filter_cons_of_neg hhit, ih hrest]

/-- The first of some empty slots that are hit ends the loop. -/
theorem calls_replicate {empty : σ} (hhit : hit empty = true) (hempty : handler empty = none)
    (count : Nat) :
    calls hit handler (List.replicate count empty) = if count = 0 then [] else [none] := by
  cases count with
  | zero => rfl
  | succ count => rw [List.replicate_succ, calls, if_pos hhit, hempty, if_neg (Nat.succ_ne_zero _)]

/-- The first call of a loop is that of the first slot that is hit. -/
theorem calls_head (hit : σ → Bool) (handler : σ → Option α) (slots : List σ) :
    (calls hit handler slots).head?.join = (slots.find? hit).bind handler := by
  induction slots with
  | nil => rfl
  | cons slot slots ih =>
    unfold calls
    by_cases hhit : hit slot = true
    · rw [if_pos hhit, List.find?_cons_of_pos hhit, Option.bind_some]
      cases handler slot with
      | none => rfl
      | some called => rfl
    · rw [if_neg hhit, List.find?_cons_of_neg hhit, ih]

end Calls

/-! ## Requests -/

section Requests

variable {free : σ → Bool} {empty : σ} {entry : ρ → σ}

theorem subscribe_append {front : List σ} (back : List σ) (added : σ)
    (hfront : ∀ slot ∈ front, free slot = false) :
    subscribe free added (front ++ back) = (subscribe free added back).map (front ++ ·) := by
  induction front with
  | nil => simp
  | cons slot front ih =>
    obtain ⟨hslot, hrest⟩ := List.forall_mem_cons.mp hfront
    rw [List.cons_append, subscribe, if_neg (Bool.not_eq_true _ ▸ hslot), ih hrest,
      Option.map_map]
    rfl

/-- What is behind the entries that are not marked free: empty slots, with the entry of the last
request in front of them if it is marked free. -/
inductive Tail (free : σ → Bool) (empty : σ) (entry : ρ → σ) : List ρ → List σ → Prop
  | empty (requests : List ρ) (count : Nat) :
      Tail free empty entry requests (List.replicate count empty)
  | marked (before : List ρ) (last : ρ) (count : Nat) : free (entry last) = true →
      Tail free empty entry (before ++ [last]) (entry last :: List.replicate count empty)

/-- The table after a sequence of requests: the entries that are not marked free, in their order,
and what is behind them. -/
def Filled (free : σ → Bool) (empty : σ) (entry : ρ → σ) (requests : List ρ)
    (table : List σ) : Prop :=
  ∃ rest, table = (requests.map entry).filter (!free ·) ++ rest ∧
    Tail free empty entry requests rest

/-- A request takes the first slot behind the entries, which is marked free. -/
theorem Tail.subscribe {requests : List ρ} {rest after : List σ} (hempty : free empty = true)
    (h : Tail free empty entry requests rest) (added : σ)
    (hadded : HandlerTable.subscribe free added rest = some after) :
    ∃ count, after = added :: List.replicate count empty := by
  cases h with
  | empty _ count =>
    cases count with
    | zero => cases hadded
    | succ count =>
      rw [List.replicate_succ, HandlerTable.subscribe, if_pos hempty] at hadded
      exact ⟨count, (Option.some.inj hadded).symm⟩
  | marked before last count hmarked =>
    rw [HandlerTable.subscribe, if_pos hmarked] at hadded
    exact ⟨count, (Option.some.inj hadded).symm⟩

theorem Filled.subscribe {requests : List ρ} {table after : List σ} (hempty : free empty = true)
    (h : Filled free empty entry requests table) (request : ρ)
    (hadded : HandlerTable.subscribe free (entry request) table = some after) :
    Filled free empty entry (requests ++ [request]) after := by
  obtain ⟨rest, rfl, htail⟩ := h
  have hfront : ∀ slot ∈ (requests.map entry).filter (!free ·), free slot = false := by
    intro slot hslot
    simpa using (List.mem_filter.mp hslot).2
  rw [subscribe_append rest _ hfront, Option.map_eq_some_iff] at hadded
  obtain ⟨filled, hfilled, rfl⟩ := hadded
  obtain ⟨count, rfl⟩ := htail.subscribe hempty _ hfilled
  unfold Filled
  rw [List.map_append, List.map_singleton, List.filter_append]
  cases hmarked : free (entry request) with
  | true =>
    refine ⟨_, ?_, Tail.marked requests request count hmarked⟩
    rw [List.filter_cons_of_neg (by simp [hmarked]), List.filter_nil, List.append_nil]
  | false =>
    refine ⟨List.replicate count empty, ?_, Tail.empty _ count⟩
    rw [List.filter_cons_of_pos (by simp [hmarked]), List.filter_nil, List.append_assoc]
    rfl

theorem filled_of_run {requests : List ρ} {table : List σ} {count : Nat} (hempty : free empty = true)
    (hrun : Machine.run (fun slots request => HandlerTable.subscribe free (entry request) slots)
      (List.replicate count empty) requests = some table) :
    Filled free empty entry requests table :=
  Machine.run_history (Filled free empty entry)
    (fun _ _ request _ hfilled hstep => hfilled.subscribe hempty request hstep)
    ⟨_, rfl, Tail.empty [] count⟩ hrun

end Requests

/-! ## The loop over a table -/

section Loop

variable {free hit : σ → Bool} {handler : σ → Option α} {empty : σ} {entry : ρ → σ}
  {requests : List ρ} {table : List σ}

theorem used_handler (hentry : ∀ request, handler (entry request) ≠ none) :
    ∀ slot ∈ (requests.map entry).filter (!free ·), handler slot ≠ none := by
  intro slot hslot
  obtain ⟨request, _, rfl⟩ := List.mem_map.mp (List.mem_filter.mp hslot).1
  exact hentry request

theorem Tail.all_free {rest : List σ} (hempty : free empty = true)
    (h : Tail free empty entry requests rest) : ∀ slot ∈ rest, free slot = true := by
  cases h with
  | empty _ count =>
    intro slot hslot
    rwa [List.eq_of_mem_replicate hslot]
  | marked before last count hmarked =>
    refine List.forall_mem_cons.mpr ⟨hmarked, fun slot hslot => ?_⟩
    rwa [List.eq_of_mem_replicate hslot]

/-- Where the slots that are hit are not marked free, the loop calls what was requested. -/
theorem Filled.calls_of_used (h : Filled free empty entry requests table)
    (hempty : free empty = true) (hentry : ∀ request, handler (entry request) ≠ none)
    (hused : ∀ slot, hit slot = true → free slot = false) :
    calls hit handler table = ((requests.map entry).filter hit).map handler := by
  obtain ⟨rest, rfl, htail⟩ := h
  have hmissed : ∀ slot ∈ rest, hit slot = false := by
    intro slot hslot
    have hfree := htail.all_free hempty slot hslot
    by_contra hhit
    have hfalse := hused slot (by simpa using hhit)
    rw [hfree] at hfalse
    cases hfalse
  have hboth : ∀ slot, (hit slot && !free slot) = hit slot := by
    intro slot
    cases hslot : hit slot with
    | false => rfl
    | true => rw [hused slot hslot]; rfl
  rw [calls_append _ (used_handler hentry), calls_of_missed hmissed, List.append_nil,
    List.filter_filter]
  simp only [hboth]

/-- When no entry is hit by the mark, none is dropped for being marked. -/
theorem filter_used_eq_self {slots : List σ} (hmark : ∀ slot, hit slot = free slot)
    (hmissed : slots.filter hit = []) : slots.filter (!free ·) = slots := by
  rw [List.filter_eq_self]
  intro slot hslot
  have hnot := List.filter_eq_nil_iff.mp hmissed slot hslot
  simpa [hmark slot] using hnot

/-- When the calls that the mark hits behind the entries are those that were requested, there is no
empty slot, and a last entry that is marked is the only one. -/
theorem Tail.eq_of_calls {rest : List σ} (h : Tail free empty entry requests rest)
    (hempty : free empty = true) (hnone : handler empty = none)
    (hentry : ∀ request, handler (entry request) ≠ none) (hmark : ∀ slot, hit slot = free slot)
    (hcalls : calls hit handler rest = ((requests.map entry).filter hit).map handler) :
    (requests.map entry).filter (!free ·) ++ rest = requests.map entry := by
  have hhit : hit empty = true := (hmark empty).trans hempty
  have hsome : none ∉ ((requests.map entry).filter hit).map handler := by
    intro hmem
    obtain ⟨slot, hslot, hmissing⟩ := List.mem_map.mp hmem
    obtain ⟨request, _, rfl⟩ := List.mem_map.mp (List.mem_filter.mp hslot).1
    exact hentry request hmissing
  cases h with
  | empty _ count =>
    rw [calls_replicate hhit hnone] at hcalls
    split at hcalls
    · next hzero =>
      subst hzero
      rw [filter_used_eq_self hmark (List.map_eq_nil_iff.mp hcalls.symm)]
      exact List.append_nil _
    · exact absurd (hcalls ▸ List.mem_singleton_self none) hsome
  | marked before last count hmarked =>
    have hlast : hit (entry last) = true := (hmark _).trans hmarked
    have hfront : ∀ slot ∈ [entry last], handler slot ≠ none := by
      simpa using hentry last
    have hloop : calls hit handler (entry last :: List.replicate count empty) =
        [handler (entry last)] ++ if count = 0 then [] else [none] := by
      have happend : calls hit handler ([entry last] ++ List.replicate count empty) = _ :=
        calls_append _ hfront
      rwa [calls_replicate hhit hnone, List.filter_cons_of_pos hlast] at happend
    rw [hloop] at hcalls
    split at hcalls
    · next hzero =>
      subst hzero
      simp only [List.map_append, List.map_singleton, List.filter_append,
        List.filter_cons_of_pos hlast, List.filter_nil] at hcalls
      have hbefore : (before.map entry).filter hit = [] :=
        List.map_eq_nil_iff.mp (List.append_cancel_right hcalls).symm
      rw [List.map_append, List.filter_append, filter_used_eq_self hmark hbefore]
      simp [hmarked]
    · refine absurd ?_ hsome
      rw [← hcalls]
      exact List.mem_append_right _ (List.mem_singleton_self none)

/-- Where the slots that are hit are those that are marked free, the loop calls what was requested
exactly when the table holds the requests and nothing else. -/
theorem Filled.calls_of_free_iff (h : Filled free empty entry requests table)
    (hempty : free empty = true) (hnone : handler empty = none)
    (hentry : ∀ request, handler (entry request) ≠ none) (hmark : ∀ slot, hit slot = free slot) :
    calls hit handler table = ((requests.map entry).filter hit).map handler ↔
      table = requests.map entry := by
  constructor
  · intro hcalls
    obtain ⟨rest, rfl, htail⟩ := h
    have hmissed : ((requests.map entry).filter (!free ·)).filter hit = [] := by
      rw [List.filter_filter, List.filter_eq_nil_iff]
      intro slot _
      simp [hmark slot]
    rw [calls_append _ (used_handler hentry), hmissed, List.map_nil, List.nil_append] at hcalls
    exact htail.eq_of_calls hempty hnone hentry hmark hcalls
  · rintro rfl
    have hall : ∀ slot ∈ requests.map entry, handler slot ≠ none := by
      intro slot hslot
      obtain ⟨request, _, rfl⟩ := List.mem_map.mp hslot
      exact hentry request
    have hcalls : calls hit handler (requests.map entry ++ []) = _ := calls_append [] hall
    rwa [List.append_nil, calls, List.append_nil] at hcalls

/-- Where one key marks the free slots and the loop looks for another or the same, the loop calls
what was requested exactly when the key is another one, or the table holds the requests and nothing
else. -/
theorem Filled.calls_key_iff {κ : Type} [DecidableEq κ] {key : σ → κ} {unused : κ}
    (h : Filled (fun slot => key slot = unused) empty entry requests table)
    (handler : σ → Option α) (wanted : κ) (hempty : key empty = unused) (hnone : handler empty = none)
    (hentry : ∀ request, handler (entry request) ≠ none) :
    calls (fun slot => key slot = wanted) handler table =
        ((requests.map entry).filter fun slot => key slot = wanted).map handler ↔
      wanted ≠ unused ∨ table = requests.map entry := by
  by_cases hwanted : wanted = unused
  · subst hwanted
    rw [h.calls_of_free_iff (decide_eq_true hempty) hnone hentry fun _ => rfl]
    simp
  · refine iff_of_true (h.calls_of_used (decide_eq_true hempty) hentry ?_) (Or.inl hwanted)
    intro slot hslot
    rw [decide_eq_true_eq] at hslot
    rw [hslot]
    exact decide_eq_false hwanted

end Loop

end HandlerTable
