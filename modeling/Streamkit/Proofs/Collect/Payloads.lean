import Streamkit.Proofs.Sequences
import Streamkit.Sequence.Collect

/-!
# Collecting payloads

Collecting a sequence of maybes walks from the left, gathers payloads and stops at the first item
without one. What it gives is the fold of the items from the right by `bindM` and `map`
(`Maybe.sequence`), which is all payloads, or nothing as soon as one is missing; and it asks for no
item after the first absent one: `collect_stops_at_absent`.
-/

namespace Streamkit

variable {σ α : Type}

/-- All payloads, or nothing if one is missing; built up from the right. -/
def Maybe.sequence (items : List (Maybe α)) : Maybe (List α) :=
  items.foldr (fun item rest => Id.run (item.bindM fun a => pure (rest.map (a :: ·)))) (.present [])

/-! ## All or nothing -/

namespace Maybe

@[simp] theorem sequence_nil : sequence ([] : List (Maybe α)) = .present [] := rfl

@[simp] theorem sequence_absent_cons (items : List (Maybe α)) :
    sequence (.absent :: items) = .absent := rfl

@[simp] theorem sequence_present_cons (a : α) (items : List (Maybe α)) :
    sequence (.present a :: items) = (sequence items).map (a :: ·) := rfl

theorem sequence_eq_present {items : List (Maybe α)} {payloads : List α} :
    sequence items = .present payloads ↔ items = payloads.map .present := by
  induction items generalizing payloads with
  | nil => cases payloads <;> simp
  | cons item items ih =>
    cases item with
    | absent => cases payloads <;> simp
    | present a =>
      cases payloads with
      | nil => cases h : sequence items <;> simp [h, map]
      | cons b payloads =>
        rw [List.map_cons, List.cons.injEq, ← ih, sequence_present_cons]
        cases sequence items <;> simp [map]

/-- Either all items are present, or there is a first one that is absent. -/
theorem payloads_cases (items : List (Maybe α)) :
    (∃ payloads : List α, items = payloads.map .present) ∨
      ∃ (payloads : List α) (rest : List (Maybe α)),
        items = payloads.map .present ++ .absent :: rest := by
  induction items with
  | nil => exact .inl ⟨[], rfl⟩
  | cons item items ih =>
    cases item with
    | absent => exact .inr ⟨[], items, rfl⟩
    | present a =>
      rcases ih with ⟨payloads, rfl⟩ | ⟨payloads, rest, rfl⟩
      · exact .inl ⟨a :: payloads, rfl⟩
      · exact .inr ⟨a :: payloads, rest, rfl⟩

section Payloads

variable (payloads : List α) (rest : List (Maybe α))

theorem sequence_of_absent : sequence (payloads.map present ++ absent :: rest) = absent := by
  induction payloads with
  | nil => rfl
  | cons a payloads ih =>
    rw [List.map_cons, List.cons_append, sequence_present_cons, ih]
    rfl

theorem findIdx_isAbsent : (payloads.map present).findIdx isAbsent = payloads.length := by
  rw [List.findIdx_eq_length_of_false, List.length_map]
  simp [isAbsent]

theorem findIdx_isAbsent_append :
    (payloads.map present ++ absent :: rest).findIdx isAbsent = payloads.length := by
  rw [List.findIdx_append, findIdx_isAbsent, if_neg (by simp)]
  simp [List.findIdx_cons, isAbsent]

end Payloads

theorem sequence_eq_absent {items : List (Maybe α)} :
    sequence items = absent ↔ absent ∈ items := by
  rcases payloads_cases items with ⟨payloads, rfl⟩ | ⟨payloads, rest, rfl⟩
  · rw [sequence_eq_present.2 rfl]
    simp
  · simp [sequence_of_absent]

end Maybe

/-! ## The walk -/

/-- The visitor that gathers payloads, and has seen enough at an absent item. -/
def gather (payloads : Array α) : Maybe α → Act σ (Visit (Array α))
  | .absent => pure (.enough payloads)
  | .present a => pure (.continue (payloads.push a))

section Walk

variable {next : Act σ (Option (Maybe α))} {rest : σ → Prop} {payloads : List α} {s s' : σ}
  {limit : Nat}

theorem collectPresent_of_walk {gathered : Array α} {ending : WalkEnd}
    (h : walk next gather limit #[] s = .ok (gathered, ending) s') :
    collectPresent next limit s =
      .ok (if ending = .enough then .absent else .present gathered) s' := by
  have heq : collectPresent next limit = do
      let walked ← walk next gather limit #[]
      return if walked.2 = .enough then .absent else .present walked.1 := rfl
  simp only [heq, Bind.bind, EStateM.bind, h]
  rfl

theorem gather_present {item : Maybe α} (hitem : item ∈ payloads.map .present)
    (gathered : Array α) :
    (gather gathered item : Act σ _) = pure (.continue (gathered ++ item.toList.toArray)) := by
  obtain ⟨a, -, rfl⟩ := List.mem_map.1 hitem
  simp [gather, Maybe.toList]

theorem foldl_gathered : (payloads.map Maybe.present).foldl
    (fun gathered item => gathered ++ item.toList.toArray) #[] = payloads.toArray := by
  rw [List.foldl_map]
  simp [Maybe.toList]

theorem collectPresent_of_present
    (h : Act.Gives next (fun s => next s = .ok none s') (payloads.map .present) s)
    (hlimit : payloads.length < limit) :
    collectPresent next limit s = .ok (.present payloads.toArray) s' := by
  have hwalk := walk_foldl_all #[] h (fun _ => gather_present) (by rwa [List.length_map])
  rw [foldl_gathered] at hwalk
  exact collectPresent_of_walk hwalk

theorem collectPresent_of_absent
    (h : Act.Gives next (· = s') (payloads.map .present ++ [.absent]) s)
    (hlimit : payloads.length < limit) : collectPresent next limit s = .ok .absent s' := by
  obtain ⟨s₁, ⟨s₂, hnext, rfl⟩, hwalk⟩ :=
    walk_foldl #[] (Act.gives_append.1 h) fun _ => gather_present
  rw [foldl_gathered, List.length_map] at hwalk
  obtain ⟨more, rfl⟩ := Nat.exists_eq_add_of_lt hlimit
  have hall : walk next gather (payloads.length + more + 1) #[] s =
      .ok (payloads.toArray, .enough) s₂ := by
    rw [Nat.add_assoc, hwalk, walk, hnext]
    rfl
  exact collectPresent_of_walk hall

end Walk

/-- Collecting a source gives the fold of its items by `bindM` and `map`, which is all payloads if
every item is present and nothing otherwise; it polls the source up to the first absent item, or
else up to its end. The source ends after the items, or it goes on after one of them is absent. -/
theorem collect_stops_at_absent {source : Source (Maybe α)} {items : List (Maybe α)}
    (hsource : source.Gives items ∨ source.Starts items ∧ .absent ∈ items) {limit : Nat}
    (hlimit : items.findIdx Maybe.isAbsent < limit) :
    collectPresent Counted.poll limit (.ofSource source) =
        .ok ((Maybe.sequence items).map List.toArray)
          ⟨source, items.findIdx Maybe.isAbsent + 1⟩ ∧
      (∀ payloads, Maybe.sequence items = .present payloads ↔ items = payloads.map .present) ∧
      (Maybe.sequence items = .absent ↔ .absent ∈ items) := by
  refine ⟨?_, fun _ => Maybe.sequence_eq_present, Maybe.sequence_eq_absent⟩
  rcases Maybe.payloads_cases items with ⟨payloads, rfl⟩ | ⟨payloads, rest, rfl⟩
  · have hends := hsource.resolve_right fun h => by simpa using h.2
    rw [Maybe.findIdx_isAbsent] at hlimit ⊢
    rw [Maybe.sequence_eq_present.2 rfl]
    have hpolled := hends.polled
    rw [List.length_map] at hpolled
    exact collectPresent_of_present hpolled hlimit
  · have hstarts := hsource.elim Source.Gives.starts And.left
    rw [Maybe.findIdx_isAbsent_append] at hlimit ⊢
    rw [Maybe.sequence_of_absent]
    rw [List.append_cons] at hstarts
    have hpolled := hstarts.of_append.polled
    rw [List.length_append, List.length_map] at hpolled
    exact collectPresent_of_absent hpolled hlimit

/-- An endless source whose third item is absent. -/
theorem collect_stops_at_third :
    let source : Source (Maybe Nat) :=
      ⟨fun k => .ok (some (if k = 2 then .absent else .present k)), fun _ => ⟨0, none⟩⟩
    source.Starts [.present 0, .present 1, .absent] ∧
      collectPresent Counted.poll 10 (.ofSource source) = .ok .absent ⟨source, 3⟩ := by
  intro source
  have hstarts : source.Starts [.present 0, .present 1, .absent] := fun k hk => by
    match k, hk with
    | 0, _ | 1, _ | 2, _ => rfl
  exact ⟨hstarts, (collect_stops_at_absent (.inr ⟨hstarts, by decide⟩) (by decide)).1⟩

end Streamkit
