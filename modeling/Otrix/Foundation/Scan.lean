import Mathlib.Data.List.Forall2

/-!
# Scans

A scan goes over a list of places and updates a list of items at each. When every update treats each item
by itself, so does the whole scan (`foldlM_eq_some_iff`). A search over a list that is ordered finds the
least place (`rel_of_find?`).
-/

namespace Scan

variable {α β : Type*}

variable {items result : List α}

/-- A function that changes none of the items changes nothing. -/
theorem forall₂_of_fixed {one : α → Option α}
    (hfixed : ∀ item ∈ items, one item = some item) :
    List.Forall₂ (fun item item' => one item = some item') items result ↔ result = items := by
  induction items generalizing result with
  | nil => rw [List.forall₂_nil_left_iff]
  | cons item items ih =>
    rw [List.forall₂_cons_left_iff]
    have hrest : ∀ {rest : List α},
        List.Forall₂ (fun item item' => one item = some item') items rest ↔ rest = items :=
      ih fun other hin => hfixed other (List.mem_cons_of_mem item hin)
    simp [hfixed item List.mem_cons_self, hrest, eq_comm]

/-- Two pointwise relations, one after the other. -/
theorem forall₂_comp {first second : α → α → Prop} :
    (∃ middle, List.Forall₂ first items middle ∧ List.Forall₂ second middle result) ↔
      List.Forall₂ (fun item item' => ∃ between, first item between ∧ second between item')
        items result := by
  constructor
  · rintro ⟨middle, hfirst, hsecond⟩
    induction hfirst generalizing result with
    | nil =>
      rw [List.forall₂_nil_left_iff.mp hsecond]
      exact .nil
    | cons hitem _ ih =>
      obtain ⟨item', rest, hitem', hrest, rfl⟩ := List.forall₂_cons_left_iff.mp hsecond
      exact .cons ⟨_, hitem, hitem'⟩ (ih hrest)
  · intro h
    induction h with
    | nil => exact ⟨[], .nil, .nil⟩
    | cons hitem _ ih =>
      obtain ⟨between, hfirst, hsecond⟩ := hitem
      obtain ⟨middle, hitems, hresult⟩ := ih
      exact ⟨between :: middle, .cons hfirst hitems, .cons hsecond hresult⟩

/-- A scan whose updates treat each item by itself treats each item by itself. -/
theorem foldlM_eq_some_iff (step : List α → β → Option (List α)) (one : α → β → Option α)
    (invariant : List α → Prop)
    (hstep : ∀ items place result, invariant items → (step items place = some result ↔
      List.Forall₂ (fun item item' => one item place = some item') items result))
    (hkeep : ∀ items place result, invariant items → step items place = some result → invariant result)
    (places : List β) (hinitial : invariant items) :
    places.foldlM step items = some result ↔
      List.Forall₂ (fun item item' => places.foldlM one item = some item') items result := by
  induction places generalizing items with
  | nil =>
    have hfixed : ∀ item ∈ items, List.foldlM one item [] = some item := fun _ _ => rfl
    rw [forall₂_of_fixed hfixed]
    exact ⟨fun h => (Option.some.inj h).symm, fun h => congrArg some h.symm⟩
  | cons place places ih =>
    simp only [List.foldlM_cons, Option.bind_eq_bind, Option.bind_eq_some_iff]
    rw [← forall₂_comp]
    refine exists_congr fun middle => ?_
    rw [← hstep items place middle hinitial]
    refine and_congr_right fun hmiddle => ?_
    exact ih (hkeep items place middle hinitial hmiddle)

theorem exists_forall₂ {related : α → β → Prop} {items : List α}
    (h : ∀ item ∈ items, ∃ result, related item result) : ∃ results, List.Forall₂ related items results := by
  induction items with
  | nil => exact ⟨[], .nil⟩
  | cons item items ih =>
    obtain ⟨result, hitem⟩ := h item List.mem_cons_self
    obtain ⟨results, hitems⟩ := ih fun other hin => h other (List.mem_cons_of_mem item hin)
    exact ⟨result :: results, .cons hitem hitems⟩

/-- What holds late enough of each item holds of all of them together. -/
theorem exists_common {holds : α → Nat → Prop} {items : List α}
    (h : ∀ item ∈ items, ∃ late, ∀ n, late ≤ n → holds item n) :
    ∃ n, ∀ item ∈ items, holds item n := by
  have hall : ∃ late, ∀ n, late ≤ n → ∀ item ∈ items, holds item n := by
    induction items with
    | nil => exact ⟨0, fun _ _ _ hin => absurd hin List.not_mem_nil⟩
    | cons item items ih =>
      obtain ⟨first, hfirst⟩ := h item List.mem_cons_self
      obtain ⟨rest, hrest⟩ := ih fun other hin => h other (List.mem_cons_of_mem item hin)
      refine ⟨first + rest, fun n hle other hin => ?_⟩
      rcases List.mem_cons.mp hin with rfl | hin
      · exact hfirst n (by omega)
      · exact hrest n (by omega) other hin
  obtain ⟨late, hlate⟩ := hall
  exact ⟨late, hlate late (Nat.le_refl late)⟩

/-- In an ordered list a search finds the first place. -/
theorem rel_of_find? {before : β → β → Prop} {found : β → Bool} {places : List β} {place other : β}
    (hordered : places.Pairwise before) (hfind : places.find? found = some place)
    (hin : other ∈ places) (hother : found other = true) : other = place ∨ before place other := by
  induction places with
  | nil => cases hin
  | cons first places ih =>
    obtain ⟨hfirst, hrest⟩ := List.pairwise_cons.mp hordered
    rw [List.find?_cons] at hfind
    cases hmatch : found first with
    | true =>
      rw [hmatch] at hfind
      obtain rfl := Option.some.inj hfind
      rcases List.mem_cons.mp hin with heq | hlater
      · exact Or.inl heq
      · exact Or.inr (hfirst other hlater)
    | false =>
      rw [hmatch] at hfind
      rcases List.mem_cons.mp hin with rfl | hlater
      · rw [hmatch] at hother
        cases hother
      · exact ih hrest hfind hlater

end Scan
