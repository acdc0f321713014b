import DiceTray.Proofs.Group.Tidy
import DiceTray.Proofs.Script.RoundTrip
import DiceTray.Style

/-! A script plays like the script that its own text describes. Rolling a script without idle
settings is rolling it first and clearing them afterwards, and they do not show in its outcomes. -/
namespace DiceTray

variable {σ : Type}

/-- Two outcomes with the same total and label and like items, one for one. -/
structure Outcome.Alike (a b : Outcome) : Prop where
  total : a.total = b.total
  label? : a.label? = b.label?
  items : List.Forall₂ Item.Alike a.items b.items

/-- A change that an action passes through can be made after all of them. -/
theorem mapM_map {α : Type} {action : α → StateM σ α} {change : α → α}
    (h : ∀ a, action (change a) = change <$> action a) (as : List α) :
    (as.map change).mapM action = List.map change <$> as.mapM action := by
  induction as with
  | nil => rfl
  | cons a as ih => simp [List.mapM_cons, h, ih]

/-- A tidy pool draws the same dice. -/
theorem Throw.roll_tidy (t : Table σ) (w : Throw) : w.tidy.roll t = Throw.tidy <$> w.roll t := by
  have hGroup : t.throwGroup w.tidy.pool = t.throwGroup w.pool := t.throwGroup_tidy w.pool
  rw [roll, roll, hGroup]
  simp [tidy, Pool.tidy]

theorem Operand.roll_tidy (t : Table σ) (o : Operand) :
    o.tidy.roll t = Operand.tidy <$> o.roll t := by
  cases o with
  | dice w =>
      rw [tidy, roll, roll, w.roll_tidy]
      simp [tidy]
  | literal _ | note _ | plain _ => rfl

def Item.roll (t : Table σ) (item : Item) : StateM σ Item :=
  return { item with operand := ← item.operand.roll t }

theorem Item.roll_tidy (t : Table σ) (item : Item) :
    item.tidy.roll t = Item.tidy <$> item.roll t := by
  rw [roll, roll, tidy, item.operand.roll_tidy]
  simp [tidy]

theorem Section.roll_tidy (t : Table σ) (s : Section) :
    s.tidy.roll t = Section.tidy <$> s.roll t := by
  have hRoll : ∀ s : Section,
      s.roll t = (fun items => { s with items }) <$> s.items.mapM (Item.roll t) := fun _ => rfl
  rw [hRoll, hRoll, tidy, mapM_map (Item.roll_tidy t)]
  simp [tidy]

/-- A tidy script draws the same dice from the same state. -/
theorem Script.roll_tidy (t : Table σ) (s : Script) : s.tidy.roll t = Script.tidy <$> s.roll t := by
  rw [roll, roll, tidy, mapM_map (Section.roll_tidy t)]
  simp [tidy]

def Outcome.tidy (o : Outcome) : Outcome := { o with items := o.items.map Item.tidy }

/-- Tidying an outcome changes nothing that the outcome shows. -/
theorem Outcome.alike_tidy (o : Outcome) : o.Alike o.tidy :=
  ⟨rfl, rfl, forall₂_map_of_forall Item.alike_tidy o.items⟩

theorem Operand.value_tidy (o : Operand) : o.tidy.value = o.value := by cases o <;> rfl

theorem Operand.scores_tidy (o : Operand) : o.tidy.scores = o.scores := by cases o <;> rfl

theorem Operand.note?_tidy (o : Operand) : o.tidy.note? = o.note? := by cases o <;> rfl

theorem sumItems_tidy (items : List Item) : sumItems (items.map Item.tidy) = sumItems items := by
  rw [sumItems, sumItems, List.foldl_map]
  simp only [Item.tidy, Operand.value_tidy]

/-- A tidy section comes to the tidy outcome. -/
theorem Section.outcome_tidy (s : Section) : s.tidy.outcome = s.outcome.tidy := by
  have hItems : s.tidy.items.filter (fun item => item.operand.scores) =
      (s.items.filter fun item => item.operand.scores).map Item.tidy := by
    rw [tidy, List.filter_map]
    simp only [Function.comp_def, Item.tidy, Operand.scores_tidy]
  have hNote : (s.tidy.items.findSome? fun item => item.operand.note?) =
      s.items.findSome? fun item => item.operand.note? := by
    rw [tidy, List.findSome?_map]
    simp only [Function.comp_def, Item.tidy, Operand.note?_tidy]
  rw [outcome, outcome, hItems, hNote]
  simp only [Outcome.tidy, sumItems_tidy]
  rfl

theorem Script.outcomes_tidy (s : Script) : s.tidy.outcomes = s.outcomes.map Outcome.tidy := by
  simp [outcomes, tidy, Section.outcome_tidy]

namespace Style

/-- Dice look the same with idle settings or without. -/
def OverlooksIdle (s : Style) : Prop :=
  ∀ (p : Pool) (kept : Bool) (face : Nat), s.die p.tidy kept face = s.die p kept face

theorem plain_overlooksIdle : plain.OverlooksIdle := fun _ _ _ => rfl

theorem markdown_overlooksIdle : markdown.OverlooksIdle := fun _ _ _ => rfl

variable {s : Style} (h : s.OverlooksIdle)
include h

/-- A style that overlooks idle settings writes a tidy throw in the same way. -/
theorem throw_tidy (w : Throw) : s.throw w.tidy = s.throw w := by
  have hGroup : s.group w.tidy.pool = s.group w.pool := by
    funext g
    rw [group, group]
    simp only [Throw.tidy, h w.pool]
  have hChars : w.tidy.chars = w.chars := w.pool.chars_tidy
  rw [throw, throw, hGroup, hChars]
  rfl

theorem operand_tidy (o : Operand) : s.operand o.tidy = s.operand o := by
  cases o with
  | dice w => exact throw_tidy h w
  | literal _ | note _ | plain _ => rfl

theorem items_tidy (items : List Item) : s.items (items.map Item.tidy) = s.items items := by
  cases items with
  | nil => rfl
  | cons first rest =>
      have hLeading : s.leading first.tidy = s.leading first := by
        rw [leading, leading, Item.tidy, operand_tidy h]
      have hFollowing : ∀ item : Item, s.following item.tidy = s.following item := by
        intro item
        rw [following, following, Item.tidy, operand_tidy h]
      rw [List.map_cons, Style.items, Style.items, hLeading, List.map_map]
      exact congrArg _ (List.map_congr_left fun item _ => hFollowing item)

/-- And so it does with outcomes. -/
theorem outcomes_tidy (os : List Outcome) : s.outcomes (os.map Outcome.tidy) = s.outcomes os := by
  have hOutcome : ∀ o : Outcome, s.outcome o.tidy = s.outcome o := by
    intro o
    rw [outcome, outcome, Outcome.tidy, items_tidy h]
  rw [outcomes, outcomes, List.map_map]
  exact congrArg _ (List.map_congr_left fun o _ => hOutcome o)

end Style

/-- A line and the text it is written as play the same from any state of any shaker: the same draws
are made, the outcomes are alike, and they look the same. -/
theorem Script.roll_read_text (t : Table σ) (line : String) (state : σ) :
    let first := ((read line).roll t).run state
    let second := ((read (read line).text).roll t).run state
    first.2 = second.2 ∧
      List.Forall₂ Outcome.Alike first.1.outcomes second.1.outcomes ∧
      Style.plain.outcomes first.1.outcomes = Style.plain.outcomes second.1.outcomes ∧
      Style.markdown.outcomes first.1.outcomes = Style.markdown.outcomes second.1.outcomes := by
  intro first second
  have hSecond : second = (first.1.tidy, first.2) := by
    have hRoll : (read (read line).text).roll t = Script.tidy <$> (read line).roll t := by
      rw [read_text_read, roll_tidy]
    change ((read (read line).text).roll t).run state = _
    rw [hRoll]
    rfl
  rw [hSecond, outcomes_tidy, Style.outcomes_tidy Style.plain_overlooksIdle,
    Style.outcomes_tidy Style.markdown_overlooksIdle]
  exact ⟨rfl, forall₂_map_of_forall Outcome.alike_tidy first.1.outcomes, rfl, rfl⟩

end DiceTray
