import DiceTray.Proofs.Script.Replay
import DiceTray.Proofs.Shaker.Yields

/-! Evaluating a section in one pass. The dice of an item are drawn when the pass comes to it; the
item is then read, which would draw dice that were never drawn, and kept as it lies. Main statement:
this comes to the same as rolling the whole section and then taking its outcome, and how the dice
lay before has no part in it. -/
namespace DiceTray

variable {σ τ : Type}

def Throw.unrolled (w : Throw) : Throw := { w with groups? := none }

def Operand.unrolled : Operand → Operand
  | .dice w => .dice w.unrolled
  | o => o

def Item.unrolled (item : Item) : Item := { item with operand := item.operand.unrolled }

def Section.unrolled (s : Section) : Section := { s with items := s.items.map Item.unrolled }

/-- How the dice lay before does not matter to a roll. -/
theorem Operand.roll_unrolled (t : Table σ) (o : Operand) : o.unrolled.roll t = o.roll t := by
  cases o <;> rfl

/-- Rolling overlooks how the dice lay before. -/
theorem Item.roll_unrolled (t : Table σ) (item : Item) : item.unrolled.roll t = item.roll t := by
  rw [roll, roll, unrolled, item.operand.roll_unrolled]

/-- A section is rolled item by item. -/
theorem Section.roll_eq (t : Table σ) (s : Section) :
    s.roll t = (fun items => { s with items }) <$> s.items.mapM (Item.roll t) := rfl

/-- Rolling a section overlooks how its dice lay before. -/
theorem Section.roll_unrolled (t : Table σ) (s : Section) : s.unrolled.roll t = s.roll t := by
  have hItem : Item.roll t ∘ Item.unrolled = Item.roll t := funext (Item.roll_unrolled t)
  rw [roll_eq, roll_eq, unrolled, List.mapM_map, hItem]

/-- Dice, if these are any, have been drawn. -/
def Operand.IsSettled (o : Operand) : Prop := ∀ w ∈ o.throw?, w.groups?.isSome = true

/-- A settled operand is read without a draw, on any table. -/
theorem Operand.IsSettled.settle {o : Operand} (h : o.IsSettled) (u : Table τ) :
    o.settle u = pure o := by
  cases o with
  | dice w => rw [Operand.settle, Throw.settle_of_rolled u (h w rfl), pure_bind]
  | literal _ | note _ | plain _ => rfl

/-- Rolling settles an operand and changes nothing else of it. -/
theorem Operand.isSettled_of_roll {t : Table σ} {o rolled : Operand} {state next : σ}
    (h : (o.roll t).run state = (rolled, next)) :
    rolled.IsSettled ∧ rolled.unrolled = o.unrolled := by
  cases o with
  | dice w =>
      cases h
      refine ⟨?_, rfl⟩
      rintro _ ⟨⟩
      rfl
  | literal _ | note _ | plain _ =>
      cases h
      exact ⟨by rintro _ ⟨⟩, rfl⟩

/-- Rolling settles an item and changes nothing else of it. -/
theorem Item.isSettled_of_roll {t : Table σ} {item rolled : Item} {state next : σ}
    (h : (item.roll t).run state = (rolled, next)) :
    rolled.operand.IsSettled ∧ rolled.unrolled = item.unrolled := by
  obtain ⟨operand, _, hOperand, hEnd⟩ := bind_run_eq_iff.1 h
  cases hEnd
  obtain ⟨hSettled, hUnrolled⟩ := Operand.isSettled_of_roll hOperand
  exact ⟨hSettled, by rw [unrolled, unrolled, hUnrolled]⟩

def throwsOf (items : List Item) : List Throw := items.filterMap fun item => item.operand.throw?

theorem throwsOf_dice (joint : Joint) (w : Throw) (items : List Item) :
    throwsOf (⟨joint, .dice w⟩ :: items) = w :: throwsOf items := rfl

theorem throwsOf_of_throw?_eq_none {item : Item} (items : List Item)
    (h : item.operand.throw? = none) : throwsOf (item :: items) = throwsOf items :=
  List.filterMap_cons_none h

/-- An item without dice is left alone. -/
theorem Item.roll_of_throw?_eq_none (t : Table σ) {item : Item} (h : item.operand.throw? = none) :
    item.roll t = pure item := by
  rcases item with ⟨joint, operand⟩
  cases operand with
  | dice w => cases h
  | literal _ | note _ | plain _ => rfl

/-- Rolling items is rolling their throws, each once and from left to right. -/
theorem throwsOf_mapM_roll (t : Table σ) (items : List Item) :
    throwsOf <$> items.mapM (Item.roll t) = (throwsOf items).mapM (Throw.roll t) := by
  induction items with
  | nil => simp [throwsOf]
  | cons item items ih =>
      cases hThrow : item.operand.throw? with
      | none =>
          rw [throwsOf_of_throw?_eq_none items hThrow, List.mapM_cons,
            Item.roll_of_throw?_eq_none t hThrow, ← ih]
          simp [throwsOf_of_throw?_eq_none _ hThrow]
      | some w =>
          rcases item with ⟨joint, operand⟩
          cases operand with
          | dice w =>
              rw [throwsOf_dice, List.mapM_cons, List.mapM_cons, ← ih]
              simp [Item.roll, Operand.roll, throwsOf_dice]
          | literal _ | note _ | plain _ => cases hThrow

/-- What a pass over the items of a section has come to so far. -/
structure Pass where
  total : Int := 0
  label? : Option String
  /-- The items that take part in the total. -/
  scored : List Item := []
  /-- All items, as they lie now. -/
  items : List Item := []

namespace Pass

def visit (t : Table σ) (pass : Pass) (item : Item) : StateM σ Pass := do
  let rolled ← item.operand.roll t
  if rolled.scores then
    let operand ← rolled.settle t
    return { pass with
      total := item.joint.apply pass.total operand.value
      scored := pass.scored ++ [{ item with operand }]
      items := pass.items ++ [{ item with operand }] }
  else
    return { pass with
      label? := pass.label? <|> rolled.note?
      items := pass.items ++ [{ item with operand := rolled }] }

/-- The pass after some more items, as their dice lie. -/
def through (pass : Pass) (items : List Item) : Pass where
  total := (items.filter fun item => item.operand.scores).foldl
    (fun total item => item.joint.apply total item.operand.value) pass.total
  label? := pass.label? <|> items.findSome? fun item => item.operand.note?
  scored := pass.scored ++ items.filter fun item => item.operand.scores
  items := pass.items ++ items

theorem through_nil (pass : Pass) : pass.through [] = pass := by
  simp [through]

theorem through_cons (pass : Pass) (item : Item) (items : List Item) :
    (pass.through [item]).through items = pass.through (item :: items) := by
  rcases item with ⟨joint, operand⟩
  cases operand <;> cases pass.label? <;>
    simp [through, Operand.scores, Operand.note?]

/-- A visit rolls one item and lets the pass go through it. -/
theorem visit_eq (t : Table σ) (pass : Pass) (item : Item) :
    pass.visit t item = (fun rolled => pass.through [rolled]) <$> item.roll t := by
  rcases item with ⟨joint, operand⟩
  cases operand with
  | dice w =>
      simp [visit, through, Item.roll, Operand.roll, Operand.settle, Throw.roll, Throw.settle,
        Operand.scores, Operand.note?]
  | literal _ | note _ | plain _ =>
      simp [visit, through, Item.roll, Operand.roll, Operand.settle, Operand.scores, Operand.note?]

/-- Visiting items one by one is rolling them all and then letting the pass go through them. -/
theorem foldlM_visit (t : Table σ) (items : List Item) (pass : Pass) :
    items.foldlM (visit t) pass = pass.through <$> items.mapM (Item.roll t) := by
  induction items generalizing pass with
  | nil => simp [through_nil]
  | cons item items ih =>
      have hThrough : ∀ rolled,
          (pass.through [rolled]).through = fun items => pass.through (rolled :: items) :=
        fun rolled => funext (pass.through_cons rolled)
      simp [visit_eq, ih, hThrough]

end Pass

namespace Section

/-- Evaluates a section in one pass; its outcome, and the section with its dice as they lie. -/
def evaluate (t : Table σ) (s : Section) : StateM σ (Outcome × Section) := do
  let pass ← s.items.foldlM (Pass.visit t) { label? := s.label? }
  return (⟨pass.total, pass.label?, pass.scored⟩, { s with items := pass.items })

/-- Evaluating in one pass is rolling the section and then reading off its outcome. -/
theorem evaluate_eq (t : Table σ) (s : Section) :
    s.evaluate t = (fun rolled => (rolled.outcome, rolled)) <$> s.roll t := by
  rw [evaluate, Pass.foldlM_visit, roll_eq]
  simp [Pass.through, outcome, sumItems]

def throws (s : Section) : List Throw := throwsOf s.items

/-- Rolling a section is rolling its throws, each once and in order. -/
theorem throws_roll (t : Table σ) (s : Section) :
    throws <$> s.roll t = s.throws.mapM (Throw.roll t) := by
  rw [roll_eq, throws, ← throwsOf_mapM_roll]
  simp [throws]

/-- Rolling changes nothing of a section but how its dice lie, and settles them all. -/
theorem roll_settles {t : Table σ} {s rolled : Section} {state next : σ}
    (h : (s.roll t).run state = (rolled, next)) :
    rolled.unrolled = s.unrolled ∧ ∀ item ∈ rolled.items, item.operand.IsSettled := by
  rw [roll_eq, map_eq_pure_bind] at h
  obtain ⟨items, _, hItems, hEnd⟩ := bind_run_eq_iff.1 h
  cases hEnd
  have hEach := (forall₂_of_mapM_run hItems).imp fun item rolled ⟨_, _, hRoll⟩ =>
    Item.isSettled_of_roll hRoll
  obtain ⟨hSettled, hSame⟩ := (List.forall₂_and_left _ _).1 hEach
  have hUnrolled : items.map Item.unrolled = s.items.map Item.unrolled :=
    map_eq_map_of_forall₂ hSame
  exact ⟨by rw [unrolled, unrolled, hUnrolled], hSettled⟩

end Section
end DiceTray
