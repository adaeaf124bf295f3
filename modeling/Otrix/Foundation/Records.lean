import Mathlib.Data.List.Induction

/-!
# Records one behind another

A firmware table is a sequence of records of different sizes. Each record tells how long it is, and the
next one begins where it ends. `Chain` is the relation between the beginning of such a sequence, the
addresses of its records and its end.
-/

namespace Records

variable {size : Nat → Nat}

/-- The records begin at `start`, are at these addresses, and end at `stop`. -/
def Chain (size : Nat → Nat) : Nat → List Nat → Nat → Prop
  | start, [], stop => start = stop
  | start, record :: records, stop => record = start ∧ Chain size (start + size start) records stop

/-- A chain can be checked. -/
instance Chain.decidable (size : Nat → Nat) :
    ∀ start records stop, Decidable (Chain size start records stop)
  | start, [], stop => inferInstanceAs (Decidable (start = stop))
  | start, record :: records, stop =>
    have := Chain.decidable size (start + size start) records stop
    inferInstanceAs (Decidable (record = start ∧ Chain size (start + size start) records stop))

theorem Chain.start_le_stop {start stop : Nat} {records : List Nat} (h : Chain size start records stop) :
    start ≤ stop := by
  induction records generalizing start with
  | nil => exact Nat.le_of_eq h
  | cons record records ih => exact Nat.le_trans (Nat.le_add_right _ _) (ih h.2)

theorem Chain.start_le {start stop record : Nat} {records : List Nat} (h : Chain size start records stop)
    (hin : record ∈ records) : start ≤ record := by
  induction records generalizing start with
  | nil => cases hin
  | cons first records ih =>
    rcases List.mem_cons.mp hin with rfl | hin
    · exact Nat.le_of_eq h.1.symm
    · exact Nat.le_trans (Nat.le_add_right _ _) (ih h.2 hin)

/-- A field that is set by the records of one kind, and by no others, holds in the end what the last of
them set. -/
theorem foldl_field {σ α : Type*} (step : σ → Nat → σ) (field : σ → α) (kind : Nat → Bool)
    (value : Nat → α)
    (hstep : ∀ state record, field (step state record) = if kind record then value record else field state)
    (initial : σ) (records : List Nat) :
    field (records.foldl step initial) =
      match (records.filter kind).getLast? with
      | some record => value record
      | none => field initial := by
  induction records using List.reverseRecOn with
  | nil => rfl
  | append_singleton records record ih =>
    rw [List.foldl_append, List.filter_append, List.foldl_cons, List.foldl_nil, hstep]
    cases hkind : kind record with
    | true => simp [hkind]
    | false =>
      rw [ih]
      simp [hkind]

end Records
