/-!
# Merging lanes

A `Lane` is a sequence that may be endless: what it gives at each position, and nothing from its end
on. Merging lanes picks, again and again, the least of their first items, and of equivalent items
the one of the lane that stands first (`Lane.merge`). A pick from lanes that stand side by side is a
choice between the picks of the two parts (`Lane.pick_append`), whatever the lanes have to give.
So it does not matter whether lanes are merged at once or in groups whose merges are merged:
`Lane.merge_groups`. Lanes that give nothing may stand anywhere, since they are groups with no lane:
`Lane.merge_filter`.
-/

open Std

namespace Streamkit

variable {α : Type}

/-- What a sequence gives at each position. -/
abbrev Lane (α : Type) := Nat → Option α

namespace Lane

/-- The lane after its first item. -/
def tail (f : Lane α) : Lane α := fun n => f (n + 1)

/-- Nothing comes after the end. -/
def Fused (f : Lane α) : Prop := ∀ n, f n = none → f (n + 1) = none

/-- An item that is picked, and what is left of the lanes. -/
abbrev Pick (α : Type) := Option (α × List (Lane α))

/-- The pick from lanes that stand side by side, from the picks of the two parts. -/
def choose (cmp : α → α → Ordering) (fs gs : List (Lane α)) : Pick α → Pick α → Pick α
  | none, none => none
  | some (a, fs'), none => some (a, fs' ++ gs)
  | none, some (b, gs') => some (b, fs ++ gs')
  | some (a, fs'), some (b, gs') =>
    if cmp b a = .lt then some (b, fs ++ gs') else some (a, fs' ++ gs)

/-- The pick from one lane. -/
def pickOne (f : Lane α) : Pick α := (f 0).map (·, [f.tail])

/-- The least of the first items, of equivalent items the first. -/
def pick (cmp : α → α → Ordering) : List (Lane α) → Pick α
  | [] => none
  | f :: fs => choose cmp [f] fs f.pickOne (pick cmp fs)

/-- The lane of all picks, one after the other. -/
def merge (cmp : α → α → Ordering) : List (Lane α) → Lane α
  | fs, 0 => (pick cmp fs).map Prod.fst
  | fs, n + 1 => (pick cmp fs).bind fun picked => merge cmp picked.2 n

variable {cmp : α → α → Ordering} {fs fs' : List (Lane α)} {f : Lane α} {a : α}

/-! ## Picks -/

theorem choose_none_right (cmp : α → α → Ordering) (fs : List (Lane α)) (p : Pick α) :
    choose cmp fs [] p none = p := by
  cases p with
  | none => rfl
  | some p => simp [choose]

theorem pick_singleton (cmp : α → α → Ordering) (f : Lane α) : pick cmp [f] = f.pickOne :=
  choose_none_right cmp [f] f.pickOne

theorem choose_assoc [TransCmp cmp] (fs gs hs : List (Lane α)) (p q r : Pick α) :
    choose cmp fs (gs ++ hs) p (choose cmp gs hs q r) =
      choose cmp (fs ++ gs) hs (choose cmp fs gs p q) r := by
  rcases p with _ | ⟨a, fs'⟩ <;> rcases q with _ | ⟨b, gs'⟩ <;> rcases r with _ | ⟨c, hs'⟩ <;>
    simp only [choose, List.append_assoc]
  · by_cases hcb : cmp c b = .lt <;> simp [hcb]
  · by_cases hba : cmp b a = .lt <;> simp [hba]
  · by_cases hcb : cmp c b = .lt
    · by_cases hba : cmp b a = .lt
      · have hca : cmp c a = .lt := TransCmp.lt_trans hcb hba
        simp [hcb, hba, hca]
      · simp [hcb, hba]
    · by_cases hba : cmp b a = .lt
      · simp [hcb, hba]
      · -- what is not less than the middle item is not less than the first either
        have hab : (cmp a b).isLE :=
          Ordering.isLE_iff_ne_gt.2 fun hgt => hba (OrientedCmp.gt_iff_lt.1 hgt)
        have hca : cmp c a ≠ .lt := fun hca => hcb (TransCmp.lt_of_lt_of_isLE hca hab)
        simp [hcb, hba, hca]

/-- A pick from lanes side by side. -/
theorem pick_append [TransCmp cmp] (fs gs : List (Lane α)) :
    pick cmp (fs ++ gs) = choose cmp fs gs (pick cmp fs) (pick cmp gs) := by
  induction fs with
  | nil =>
    rw [List.nil_append]
    cases pick cmp gs <;> rfl
  | cons f fs ih =>
    show choose cmp [f] (fs ++ gs) f.pickOne (pick cmp (fs ++ gs)) = _
    rw [ih, choose_assoc]
    rfl

/-! ## Merges -/

theorem merge_zero (cmp : α → α → Ordering) (fs : List (Lane α)) :
    merge cmp fs 0 = (pick cmp fs).map Prod.fst := rfl

theorem tail_merge (h : pick cmp fs = some (a, fs')) : (merge cmp fs).tail = merge cmp fs' := by
  funext n
  simp only [tail, merge, h, Option.bind_some]

theorem merge_of_none (h : pick cmp fs = none) (n : Nat) : merge cmp fs n = none := by
  cases n with
  | zero => rw [merge, h]; rfl
  | succ n => rw [merge, h]; rfl

/-- A merge is picked from as the lanes that are merged. -/
theorem pickOne_merge (cmp : α → α → Ordering) (fs : List (Lane α)) :
    (merge cmp fs).pickOne = (pick cmp fs).map fun picked => (picked.1, [merge cmp picked.2]) := by
  rw [pickOne, merge_zero]
  cases h : pick cmp fs with
  | none => rfl
  | some picked => simp [tail_merge h]

/-- A pick from the merges of groups is one from all lanes, and leaves groups of what is left. -/
theorem pick_groups (cmp : α → α → Ordering) [TransCmp cmp] (groups : List (List (Lane α))) :
    pick cmp groups.flatten = none ∧ pick cmp (groups.map (merge cmp)) = none ∨
    ∃ (a : α) (groups' : List (List (Lane α))),
      pick cmp groups.flatten = some (a, groups'.flatten) ∧
      pick cmp (groups.map (merge cmp)) = some (a, groups'.map (merge cmp)) := by
  induction groups with
  | nil => exact .inl ⟨rfl, rfl⟩
  | cons g groups ih =>
    rw [List.flatten_cons, List.map_cons, pick_append, pick, pickOne_merge]
    rcases hg : pick cmp g with _ | ⟨a, g'⟩ <;>
      rcases ih with ⟨hflat, hmerged⟩ | ⟨b, groups', hflat, hmerged⟩ <;>
      rw [hflat, hmerged]
    · exact .inl ⟨rfl, rfl⟩
    · exact .inr ⟨b, g :: groups', rfl, rfl⟩
    · exact .inr ⟨a, g' :: groups, rfl, rfl⟩
    · by_cases hba : cmp b a = .lt
      · exact .inr ⟨b, g :: groups', by simp [choose, hba], by simp [choose, hba]⟩
      · exact .inr ⟨a, g' :: groups, by simp [choose, hba], by simp [choose, hba]⟩

/-- Merging the merges of groups is merging all lanes. -/
theorem merge_groups [TransCmp cmp] (groups : List (List (Lane α))) :
    merge cmp (groups.map (merge cmp)) = merge cmp groups.flatten := by
  funext n
  induction n generalizing groups with
  | zero =>
    rw [merge_zero, merge_zero]
    rcases pick_groups cmp groups with ⟨hflat, hmerged⟩ | ⟨a, groups', hflat, hmerged⟩
    · rw [hflat, hmerged]
    · rw [hflat, hmerged]
      rfl
  | succ n ih =>
    rcases pick_groups cmp groups with ⟨hflat, hmerged⟩ | ⟨a, groups', hflat, hmerged⟩ <;>
      rw [merge, merge, hflat, hmerged]
    exact ih groups'

theorem Fused.tail (h : f.Fused) : f.tail.Fused := fun n => h (n + 1)

theorem Fused.eq_none (h : f.Fused) (hf : f 0 = none) (n : Nat) : f n = none := by
  induction n with
  | zero => exact hf
  | succ n ih => exact h n ih

/-- The merge of one lane is the lane. -/
theorem merge_singleton (cmp : α → α → Ordering) (h : f.Fused) : merge cmp [f] = f := by
  funext n
  induction n generalizing f with
  | zero =>
    rw [merge, pick_singleton, pickOne, Option.map_map]
    exact Option.map_id'
  | succ n ih =>
    rw [merge, pick_singleton, pickOne]
    cases hf : f 0 with
    | none => exact (h.eq_none hf (n + 1)).symm
    | some a => exact ih h.tail

/-- Lanes are the merges of groups, in which a lane that gives nothing is that of no lane. -/
theorem exists_groups (cmp : α → α → Ordering) (h : ∀ f ∈ fs, f.Fused) :
    ∃ groups : List (List (Lane α)), groups.flatten = fs.filter (fun f => (f 0).isSome) ∧
      groups.map (merge cmp) = fs := by
  induction fs with
  | nil => exact ⟨[], rfl, rfl⟩
  | cons f fs ih =>
    obtain ⟨groups, hflat, hmerged⟩ := ih fun g hg => h g (List.mem_cons_of_mem f hg)
    have hf := h f List.mem_cons_self
    cases hhead : f 0 with
    | none =>
      have hempty : merge cmp [] = f :=
        funext fun n => (merge_of_none rfl n).trans (hf.eq_none hhead n).symm
      exact ⟨[] :: groups, by simpa [hhead] using hflat, by rw [List.map_cons, hempty, hmerged]⟩
    | some a =>
      refine ⟨[f] :: groups, by simp [hhead, hflat], ?_⟩
      rw [List.map_cons, merge_singleton cmp hf, hmerged]

/-- Lanes that give nothing may be left out. -/
theorem merge_filter [TransCmp cmp] (h : ∀ f ∈ fs, f.Fused) :
    merge cmp (fs.filter fun f => (f 0).isSome) = merge cmp fs := by
  obtain ⟨groups, hflat, hmerged⟩ := exists_groups cmp h
  rw [← hflat, ← merge_groups, hmerged]

end Lane

end Streamkit
