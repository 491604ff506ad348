import Streamkit.Proofs.Collect.Filters

/-!
# Splitting by side

The eithers of a sequence are split into left and right payloads in two ways: by one walk that
gathers both (`partitionSides`), and by two filters that give those of one side one at a time
(`nextLeft`, `nextRight`). Both give the same lists, from which the sequence can be woven again, and
a filter asks for no more items than it takes: `Either.split_by_side`.
-/

namespace Streamkit

variable {σ α β : Type}

namespace Either

/-- The side that the payload is on. -/
def side : Either α β → Side
  | left _ => .left
  | right _ => .right

/-- The left payloads of the items, in order. -/
def lefts (items : List (Either α β)) : List α := chosen left? items

/-- The right payloads of the items, in order. -/
def rights (items : List (Either α β)) : List β := chosen right? items

/-- Takes the next payload of the side that is named, one side after the other; there must be
neither too few payloads nor too many. -/
def weave : List Side → List α → List β → Option (List (Either α β))
  | [], [], [] => some []
  | .left :: sides, a :: as, bs => (weave sides as bs).map (.left a :: ·)
  | .right :: sides, as, b :: bs => (weave sides as bs).map (.right b :: ·)
  | _, _, _ => none

section Lists

variable (a : α) (b : β) (items more : List (Either α β))

@[simp] theorem lefts_nil : lefts ([] : List (Either α β)) = [] := rfl

@[simp] theorem lefts_cons_left : lefts (.left a :: items) = a :: lefts items := rfl

@[simp] theorem lefts_cons_right : lefts (.right b :: items) = lefts items := rfl

@[simp] theorem rights_nil : rights ([] : List (Either α β)) = [] := rfl

@[simp] theorem rights_cons_left : rights (.left a :: items) = rights items := rfl

@[simp] theorem rights_cons_right : rights (.right b :: items) = b :: rights items := rfl

theorem lefts_append : lefts (items ++ more) = lefts items ++ lefts more := chosen_append ..

theorem rights_append : rights (items ++ more) = rights items ++ rights more := chosen_append ..

theorem lefts_map_swap : lefts (items.map swap) = rights items := by
  induction items with
  | nil => rfl
  | cons e items ih => cases e <;> simp [swap, ih]

theorem rights_map_swap : rights (items.map swap) = lefts items := by
  induction items with
  | nil => rfl
  | cons e items ih => cases e <;> simp [swap, ih]

theorem map_left_lefts : (lefts items).map left = items.filter isLeft := by
  induction items with
  | nil => rfl
  | cons e items ih => cases e <;> simp [List.filter_cons, isLeft, ih]

theorem map_right_rights : (rights items).map right = items.filter isRight := by
  induction items with
  | nil => rfl
  | cons e items ih => cases e <;> simp [List.filter_cons, isRight, ih]

theorem length_lefts_add_length_rights :
    (lefts items).length + (rights items).length = items.length := by
  induction items with
  | nil => rfl
  | cons e items ih => cases e <;> simp <;> omega

theorem weave_sides : weave (items.map side) (lefts items) (rights items) = some items := by
  induction items with
  | nil => rfl
  | cons e items ih => cases e <;> simp [side, weave, ih]

/-- Adds the payload to those of its side. -/
def addTo (sides : Array α × Array β) : Either α β → Array α × Array β
  | left a => (sides.1.push a, sides.2)
  | right b => (sides.1, sides.2.push b)

theorem foldl_addTo (as : Array α) (bs : Array β) :
    items.foldl addTo (as, bs) = (as ++ (lefts items).toArray, bs ++ (rights items).toArray) := by
  induction items generalizing as bs with
  | nil => simp
  | cons e items ih => cases e <;> simp [addTo, ih]

end Lists

end Either

theorem partitionSides_of_gives {next : Act σ (Option (Either α β))} {items : List (Either α β)}
    {s s' : σ} (h : Act.Gives next (fun s => next s = .ok none s') items s) {limit : Nat}
    (hlimit : items.length < limit) :
    partitionSides next limit s =
      .ok ((Either.lefts items).toArray, (Either.rights items).toArray) s' := by
  have heq : partitionSides next limit = do
      return (← walk next (fun sides e => pure (.continue (Either.addTo sides e))) limit
        (#[], #[])).1 := by
    -- the visitors agree on either side
    refine congrArg (fun visit : _ → _ → Act σ (Visit (Array α × Array β)) =>
      (do return (← walk next visit limit (#[], #[])).1 : Act σ _)) ?_
    funext sides e
    cases e <;> rfl
  have hwalk : walk next (fun sides e => pure (.continue (Either.addTo sides e))) limit
      (#[], #[]) s = .ok (items.foldl Either.addTo (#[], #[]), .finished) s' :=
    walk_foldl_all (#[], #[]) h (fun _ _ _ => rfl) hlimit
  rw [Either.foldl_addTo, Array.empty_append, Array.empty_append] at hwalk
  simp only [heq, Bind.bind, EStateM.bind, hwalk]
  rfl

namespace Either

/-- A source that gives the items is split without losing any of them, by the walk and by the two
filters alike. -/
structure Splits (source : Source (Either α β)) (limit : Nat) (items : List (Either α β)) :
    Prop where
  partition : partitionSides Counted.poll limit (.ofSource source) =
    .ok ((lefts items).toArray, (rights items).toArray) ⟨source, items.length + 1⟩
  filterLeft : ∀ n, items.length < n → pull (nextLeft Counted.poll limit) n (.ofSource source) =
    .ok ⟨(lefts items).toArray, true⟩ ⟨source, items.length + 1⟩
  filterRight : ∀ n, items.length < n → pull (nextRight Counted.poll limit) n (.ofSource source) =
    .ok ⟨(rights items).toArray, true⟩ ⟨source, items.length + 1⟩
  orderLeft : (lefts items).map .left = items.filter isLeft
  orderRight : (rights items).map .right = items.filter isRight
  length : (lefts items).length + (rights items).length = items.length
  weave : weave (items.map side) (lefts items) (rights items) = some items
  append : ∀ more (whole : Source (Either α β)), whole.Gives (items ++ more) →
    (items ++ more).length < limit → partitionSides Counted.poll limit (.ofSource whole) =
      .ok ((lefts items ++ lefts more).toArray, (rights items ++ rights more).toArray)
        ⟨whole, (items ++ more).length + 1⟩
  swap : ∀ swapped : Source (Either β α), swapped.Gives (items.map swap) →
    partitionSides Counted.poll limit (.ofSource swapped) =
      .ok ((rights items).toArray, (lefts items).toArray) ⟨swapped, items.length + 1⟩

/-- A source that gives the items to begin with is polled by a filter up to the item of the last
payload that is pulled. -/
structure SplitsUpTo (source : Source (Either α β)) (limit : Nat) (items : List (Either α β)) :
    Prop where
  left : ∀ k ≤ (lefts items).length, ∃ before, UpTo left? k items before ∧
    pull (nextLeft Counted.poll limit) k (.ofSource source) =
      .ok ⟨((lefts items).take k).toArray, false⟩ ⟨source, before.length⟩
  right : ∀ k ≤ (rights items).length, ∃ before, UpTo right? k items before ∧
    pull (nextRight Counted.poll limit) k (.ofSource source) =
      .ok ⟨((rights items).take k).toArray, false⟩ ⟨source, before.length⟩

variable {source : Source (Either α β)} {limit : Nat} {items : List (Either α β)}

theorem splits_of_gives (hsource : source.Gives items) (hlimit : items.length < limit) :
    Splits source limit items where
  partition := partitionSides_of_gives hsource.polled hlimit
  filterLeft _ hn := pull_chosen hsource.polled hlimit hn
  filterRight _ hn := pull_chosen hsource.polled hlimit hn
  orderLeft := map_left_lefts items
  orderRight := map_right_rights items
  length := length_lefts_add_length_rights items
  weave := weave_sides items
  append more whole hwhole hlimit := by
    rw [partitionSides_of_gives hwhole.polled hlimit, lefts_append, rights_append]
  swap swapped hswapped := by
    rw [partitionSides_of_gives hswapped.polled (by rwa [List.length_map]), lefts_map_swap,
      rights_map_swap, List.length_map]

theorem splitsUpTo_of_starts (hsource : source.Starts items) (hlimit : items.length ≤ limit) :
    SplitsUpTo source limit items where
  left _ hk := pull_chosen_of_starts hsource hlimit hk
  right _ hk := pull_chosen_of_starts hsource hlimit hk

/-- The walk that splits a source and the two filters give the same lists, in the order of the
items; nothing is lost, so that the items can be woven again; and splitting respects concatenation
and exchanges the lists when the sides are exchanged. A filter polls a source, which may have no
end, up to the item of the last payload that is pulled. -/
theorem split_by_side (source : Source (Either α β)) (limit : Nat) :
    (∀ items, source.Gives items → items.length < limit → Splits source limit items) ∧
      -- the source may go on after `items`
      ∀ items, source.Starts items → items.length ≤ limit → SplitsUpTo source limit items :=
  ⟨fun _ => splits_of_gives, fun _ => splitsUpTo_of_starts⟩

/-- Left and right payloads in turn, without an end and up to the third. -/
theorem split_by_side_in_turn :
    let source : Source (Either Nat Nat) :=
      ⟨fun k => .ok (some (if k % 2 = 0 then .left k else .right k)), fun _ => ⟨0, none⟩⟩
    let items : List (Either Nat Nat) := [.left 0, .right 1, .left 2]
    (source.Starts items ∧ ∃ before, UpTo left? 1 items before ∧
      pull (nextLeft Counted.poll 5) 1 (.ofSource source) =
        .ok ⟨#[0], false⟩ ⟨source, before.length⟩) ∧
      (Source.ofList items).Gives items ∧
      partitionSides Counted.poll 5 (.ofSource (.ofList items)) =
        .ok (#[0, 2], #[1]) ⟨.ofList items, 4⟩ := by
  intro source items
  have hstarts : source.Starts items := fun k hk => by
    match k, hk with
    | 0, _ | 1, _ | 2, _ => rfl
  have hgives := Source.gives_ofList items
  have hbegins := (split_by_side source 5).2 items hstarts (by decide)
  have hsplits := (split_by_side _ 5).1 items hgives (by decide)
  exact ⟨⟨hstarts, hbegins.left 1 (by decide)⟩, hgives, hsplits.partition⟩

end Either

end Streamkit
