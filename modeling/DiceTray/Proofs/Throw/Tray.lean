import DiceTray.Proofs.Throw.Overflow
import DiceTray.Shaker.Tape

/-! A tray holds a throw in hand and the copies of it that were saved. Any deed may follow any
other: rolling, reading, saving, going back to a copy, or moving to another table. Every copy
carries its past, the deeds that could draw for it since it was made of a throw that was never
rolled. Totals are words, so a program that does not let them wrap around can stop at a deed. Main
statement: after any deeds, a throw holds exactly the groups of the latest deed in its past that
drew, only a roll or the first reading draws, the groups held fit the pool, and a program stops only
where the worth of a group that it draws or the sum that it is asked for is no total. -/
namespace DiceTray

structure Setting where
  State : Type
  table : Table State
  state : State

/-- The result of an action, all faces that it draws, and the setting that it leaves. -/
def Setting.perform {α : Type} (c : Setting) (action : {σ : Type} → Table σ → StateM σ α) :
    α × List Nat × Setting :=
  let (result, next) := (action c.table).run c.state
  (result, ((action c.table.recording).run (c.state, [])).2.2, { c with state := next })

def Setting.Fair (c : Setting) (sides : Nat) : Prop :=
  c.table.ShowsOnly sides fun face => 1 ≤ face ∧ face ≤ sides

inductive View where
  | groups
  | total
  | tallies

/-- What is answered, with words for the totals. -/
inductive Answer where
  | groups (groups : List Scored)
  | total (total : Int)
  | tallies (tallies : List (List Nat))
  | last (groups? : Option (List Scored))
  | done
deriving DecidableEq

inductive Deed where
  /-- Draw every group afresh. -/
  | roll
  /-- Read the throw, which draws its groups if it was never rolled. -/
  | read (view : View)
  /-- Look at the groups of the last roll, if there was one. -/
  | last
  | save
  /-- Take a copy of a saved copy in hand; nothing happens if there is none in that place. -/
  | restore (place : Nat)
  | use (setting : Setting)

def Deed.Fair (sides : Nat) : Deed → Prop
  | .use setting => setting.Fair sides
  | _ => True

/-- A deed that could draw: the limits in force, the faces it drew, and the groups afterwards. -/
structure Event where
  limits : Limits
  drawn : List Nat
  groups : List Group

structure Copy where
  throw : Throw
  /-- The latest event comes first. -/
  past : List Event := []

/-- The latest event that drew. -/
def Copy.latest? (copy : Copy) : Option Event := copy.past.find? fun e => !e.drawn.isEmpty

structure Tray where
  hand : Copy
  saved : List Copy := []
  setting : Setting

structure Report where
  answer : Answer
  drawn : List Nat := []
  tray : Tray

/-- What a program reads of a throw; none where it stops. -/
def View.ofThrow (o : Overflow) (w : Throw) : View → Option Answer
  | .groups => (w.scoredIn o).map .groups
  | .total => (w.totalIn o).map .total
  | .tallies => (w.scoredIn o).map fun groups => .tallies (groups.map Scored.tally)

/-- What is to be read of groups that a program holds. The total is the sum of the totals that the
groups are shown with, and is a word in its turn. -/
def View.ofGroups (o : Overflow) (groups : List Group) : View → Option Answer
  | .groups => some (.groups (groups.map Group.scored))
  | .total => (o.word (groups.map fun g => g.scored.total).sum).map .total
  | .tallies => some (.tallies (groups.map Group.tally))

/-- The worth of a group is no total, or the sum that is asked for is none. -/
def View.LeavesRange (w : Throw) (view : View) : Prop :=
  (∃ g ∈ w.groups, ¬ IsTotal g.total) ∨ view = .total ∧ ¬ IsTotal w.total

namespace Tray

/-- An action on the throw in hand, and what is read of the throw afterwards. -/
def act (o : Overflow) (tray : Tray) (action : {σ : Type} → Table σ → StateM σ Throw)
    (view : View) : Option Report :=
  let (throw, drawn, setting) := tray.setting.perform action
  let event : Event := ⟨tray.setting.table.limits, drawn, throw.groups⟩
  (view.ofThrow o throw).map fun answer =>
    ⟨answer, drawn, { tray with hand := ⟨throw, event :: tray.hand.past⟩, setting }⟩

/-- One deed; none where the program stops. -/
def step (o : Overflow) (tray : Tray) : Deed → Option Report
  | .roll => tray.act o (fun t => tray.hand.throw.roll t) .groups
  | .read view => tray.act o (fun t => tray.hand.throw.settle t) view
  | .last => (tray.hand.throw.lastIn o).map fun groups? => { answer := .last groups?, tray }
  | .save => some { answer := .done, tray := { tray with saved := tray.saved ++ [tray.hand] } }
  | .restore place =>
    some { answer := .done, tray := { tray with hand := tray.saved[place]?.getD tray.hand } }
  | .use setting => some { answer := .done, tray := { tray with setting } }

def run (o : Overflow) (tray : Tray) (deeds : List Deed) : Option Tray :=
  deeds.foldlM (fun tray deed => (tray.step o deed).map Report.tray) tray

def start (p : Pool) (setting : Setting) : Tray := { hand := { throw := { pool := p } }, setting }

/-- The deed brings about a number that is no total. -/
def LeavesRange (tray : Tray) : Deed → Prop
  | .roll => View.groups.LeavesRange (tray.setting.perform fun t => tray.hand.throw.roll t).1
  | .read view => view.LeavesRange (tray.setting.perform fun t => tray.hand.throw.settle t).1
  | _ => False

end Tray

/-- What a copy is once it was made of a throw of the pool. -/
structure Copy.Sound (o : Overflow) (p : Pool) (copy : Copy) : Prop where
  pool_eq : copy.throw.pool = p
  groups?_eq_none_iff : copy.throw.groups? = none ↔ copy.past = []
  groups?_eq : copy.throw.groups? = copy.latest?.map Event.groups
  length_groups : ∀ e ∈ copy.latest?, e.groups.length = p.times
  fits : ∀ e ∈ copy.latest?, ∀ g ∈ e.groups,
    g.Fits p e.limits ∧ ∀ face ∈ g.tally, 1 ≤ face ∧ face ≤ p.sides
  /-- Where a program stops at other numbers, the totals it shows are exact. -/
  isHeldBy : copy.throw.IsHeldBy o

namespace View

variable {o : Overflow} {w : Throw} {view : View}

/-- A program that has come by all groups reads them as it holds them. -/
theorem ofThrow_eq (hScored : w.IsScored) (hHeld : w.IsHeldBy o) :
    view.ofThrow o w = view.ofGroups o w.groups := by
  have hGroups := Throw.scoredIn_eq_some hScored hHeld
  cases view with
  | groups => rw [ofThrow, hGroups]; rfl
  | total => rw [ofThrow, Throw.totalIn_eq hScored, ← Throw.word_sum_scored hHeld]; rfl
  | tallies =>
      rw [ofThrow, hGroups, Option.map_some, List.map_map]
      rfl

/-- A reading stops the program exactly if it comes to a number that is no total. -/
theorem ofThrow_eq_none_iff (hScored : w.IsScored) :
    view.ofThrow o w = none ↔ o = .stops ∧ view.LeavesRange w := by
  cases view with
  | groups | tallies => simp [ofThrow, LeavesRange, Throw.scoredIn_eq_none_iff hScored]
  | total =>
      have hSum : (∃ g ∈ w.groups, ¬ IsTotal g.total) → ¬ IsTotal w.total := fun ⟨_, hg, hFar⟩ =>
        Throw.not_isTotal_total hg hFar
      rw [ofThrow, Throw.totalIn_eq hScored, Option.map_eq_none_iff, Overflow.word_eq_none_iff]
      simpa [LeavesRange] using fun _ g hg hFar => hSum ⟨g, hg, hFar⟩

/-- Once a throw was read, whatever the view, its groups are held. -/
theorem isHeldBy_of_ofThrow_eq_some (hScored : w.IsScored) {answer : Answer}
    (h : view.ofThrow o w = some answer) : w.IsHeldBy o := by
  intro hStops g hg
  by_contra hFar
  rw [(ofThrow_eq_none_iff hScored).2 ⟨hStops, .inl ⟨g, hg, hFar⟩⟩] at h
  cases h

end View

namespace Copy

variable {o : Overflow} {p : Pool} {copy : Copy} {e : Event}

/-- An event that drew is the latest from then on. -/
theorem latest?_of_drawn (w : Throw) (past : List Event) (h : e.drawn ≠ []) :
    (⟨w, e :: past⟩ : Copy).latest? = some e := by
  rw [latest?, List.find?_cons_of_pos]
  simpa using h

/-- An event that drew nothing leaves the latest one as it was. -/
theorem latest?_of_not_drawn (w : Throw) (past : List Event) (h : e.drawn = []) :
    (⟨w, e :: past⟩ : Copy).latest? = (⟨w, past⟩ : Copy).latest? := by
  rw [latest?, List.find?_cons_of_neg]
  · rfl
  · simp [h]

theorem Sound.latest?_eq_none_iff (h : copy.Sound o p) :
    copy.latest? = none ↔ copy.throw.groups? = none := by
  rw [h.groups?_eq, Option.map_eq_none_iff]

/-- A copy holds the groups of its latest event. -/
theorem Sound.groups_eq (h : copy.Sound o p) (hLatest : copy.latest? = some e) :
    copy.throw.groups = e.groups := by
  rw [Throw.groups, h.groups?_eq, hLatest, Option.map_some, Option.getD_some]

/-- The groups that a copy holds were scored when they were drawn. -/
theorem Sound.isScored (h : copy.Sound o p) : copy.throw.IsScored := by
  intro g hg
  cases hLatest : copy.latest? with
  | none =>
      rw [Throw.groups, h.latest?_eq_none_iff.1 hLatest] at hg
      cases hg
  | some e =>
      rw [h.groups_eq hLatest] at hg
      rw [h.pool_eq]
      exact (h.fits e hLatest g hg).1.score_tally

/-- A copy is sound after an event that drew groups for it, whatever it was before. -/
theorem sound_of_drawn {v : Throw} (past : List Event) (hDrawn : e.drawn ≠ []) (hPool : v.pool = p)
    (hGroups : v.groups? = some e.groups) (hLength : e.groups.length = p.times)
    (hFits : ∀ g ∈ e.groups, g.Fits p e.limits ∧ ∀ face ∈ g.tally, 1 ≤ face ∧ face ≤ p.sides)
    (hHeld : v.IsHeldBy o) : (⟨v, e :: past⟩ : Copy).Sound o p := by
  have hLatest := latest?_of_drawn v past hDrawn
  refine ⟨hPool, by simp [hGroups], by rw [hLatest]; exact hGroups, ?_, ?_, hHeld⟩
  · rw [hLatest]
    rintro _ ⟨⟩
    exact hLength
  · rw [hLatest]
    rintro _ ⟨⟩
    exact hFits

/-- A copy that holds groups stays sound through an event that drew none. -/
theorem Sound.of_not_drawn (h : copy.Sound o p) (hDrawn : e.drawn = [])
    (hRolled : copy.throw.groups? ≠ none) :
    (⟨copy.throw, e :: copy.past⟩ : Copy).Sound o p := by
  have hLatest : (⟨copy.throw, e :: copy.past⟩ : Copy).latest? = copy.latest? :=
    latest?_of_not_drawn copy.throw copy.past hDrawn
  refine ⟨h.pool_eq, by simp [hRolled], ?_, ?_, ?_, h.isHeldBy⟩ <;> rw [hLatest]
  · exact h.groups?_eq
  · exact h.length_groups
  · exact h.fits

end Copy

namespace Setting

variable {c after : Setting} {w v : Throw} {drawn : List Nat}

/-- To settle a rolled throw changes nothing, neither the throw nor the setting. -/
theorem perform_settle_of_rolled (h : w.groups?.isSome = true) :
    c.perform (fun t => w.settle t) = (w, [], c) := by
  rw [perform, Throw.settle_of_rolled _ h, Throw.settle_of_rolled _ h]
  rfl

/-- To settle any other throw is to roll it. -/
theorem perform_settle_of_not_rolled (h : w.groups? = none) :
    c.perform (fun t => w.settle t) = c.perform (fun t => w.roll t) := by
  rw [perform, perform, Throw.settle_of_not_rolled _ h, Throw.settle_of_not_rolled _ h]

/-- A roll in a fair setting draws, and gives as many groups as the pool asks for. The groups fit,
and all their faces are proper. -/
theorem perform_roll (h : c.perform (fun t => w.roll t) = (v, drawn, after))
    (hFair : c.Fair w.pool.sides) :
    drawn ≠ [] ∧ after.Fair w.pool.sides ∧ v.pool = w.pool ∧ v.groups? = some v.groups ∧
      v.groups.length = w.pool.times ∧ ∀ g ∈ v.groups,
        g.Fits w.pool c.table.limits ∧ ∀ face ∈ g.tally, 1 ≤ face ∧ face ≤ w.pool.sides := by
  rcases hRun : (w.roll c.table).run c.state with ⟨lying, next⟩
  obtain ⟨drew, hDrew, hRecord⟩ := Throw.roll_recording_run hRun
  rw [perform, hRun, hRecord] at h
  cases h
  have hFaces := Throw.forall_mem_tally_of_roll hFair hRun
  obtain ⟨groups, rfl, hLength, hFits⟩ := Throw.exists_groups_of_roll hRun
  exact ⟨hDrew, hFair, rfl, rfl, hLength, fun g hg => ⟨hFits g hg, hFaces g hg⟩⟩

end Setting

namespace Tray

variable {o : Overflow} {p : Pool}

/-- What holds of a tray as long as the program goes on. -/
structure Sound (o : Overflow) (p : Pool) (tray : Tray) : Prop where
  hand : tray.hand.Sound o p
  saved : ∀ copy ∈ tray.saved, copy.Sound o p
  fair : tray.setting.Fair p.sides

theorem sound_start {setting : Setting} (h : setting.Fair p.sides) :
    (start p setting).Sound o p where
  hand := ⟨rfl, by simp [start], rfl, by simp [start, Copy.latest?], by simp [start, Copy.latest?],
    fun _ _ hg => by cases hg⟩
  saved := by simp [start]
  fair := h

/-- An action stops the program exactly if what is read after it comes to a number that is no total.
-/
theorem act_eq_none_iff {tray : Tray} {action : {σ : Type} → Table σ → StateM σ Throw}
    {view : View} (hScored : (tray.setting.perform action).1.IsScored) :
    tray.act o action view = none ↔
      o = .stops ∧ view.LeavesRange (tray.setting.perform action).1 := by
  rw [act, Option.map_eq_none_iff, View.ofThrow_eq_none_iff hScored]

/-- The groups of a roll are scored. -/
theorem Sound.isScored_roll {tray : Tray} (h : tray.Sound o p) :
    (tray.setting.perform fun t => tray.hand.throw.roll t).1.IsScored := by
  rcases hPerform : tray.setting.perform fun t => tray.hand.throw.roll t with ⟨v, drawn, after⟩
  have hPool := h.hand.pool_eq
  obtain ⟨-, -, hSame, -, -, hFits⟩ := Setting.perform_roll hPerform (hPool ▸ h.fair)
  intro g hg
  rw [hSame]
  exact (hFits g hg).1.score_tally

theorem Sound.isScored_settle {tray : Tray} (h : tray.Sound o p) :
    (tray.setting.perform fun t => tray.hand.throw.settle t).1.IsScored := by
  cases hGroups : tray.hand.throw.groups? with
  | none =>
      rw [Setting.perform_settle_of_not_rolled hGroups]
      exact h.isScored_roll
  | some groups =>
      rw [Setting.perform_settle_of_rolled (by rw [hGroups]; rfl)]
      exact h.hand.isScored

/-- Rolling draws, and unless the program stops the throw in hand is sound afterwards and is read as
it was drawn. -/
theorem Sound.act_roll {tray : Tray} (h : tray.Sound o p) {view : View} {report : Report}
    (hReport : tray.act o (fun t => tray.hand.throw.roll t) view = some report) :
    report.drawn ≠ [] ∧ report.tray.Sound o p ∧ ∃ e ∈ report.tray.hand.latest?,
      e.drawn = report.drawn ∧ view.ofGroups o e.groups = some report.answer := by
  have hScored := h.isScored_roll
  rcases hPerform : tray.setting.perform fun t => tray.hand.throw.roll t with ⟨v, drawn, after⟩
  have hPool := h.hand.pool_eq
  obtain ⟨hDrawn, hFair, hSame, hGroups, hLength, hFits⟩ :=
    Setting.perform_roll hPerform (hPool ▸ h.fair)
  rw [hPool] at hFair hSame hLength hFits
  rw [hPerform] at hScored
  rw [act, hPerform] at hReport
  obtain ⟨answer, hAnswer, rfl⟩ := Option.map_eq_some_iff.1 hReport
  have hHeld := View.isHeldBy_of_ofThrow_eq_some hScored hAnswer
  refine ⟨hDrawn, ⟨?_, h.saved, hFair⟩, _, Copy.latest?_of_drawn v _ hDrawn, rfl, ?_⟩
  · exact Copy.sound_of_drawn _ hDrawn hSame hGroups hLength hFits hHeld
  · rw [← View.ofThrow_eq hScored hHeld, hAnswer]

/-- Reading a throw that was rolled draws nothing and changes nothing but its past. -/
theorem Sound.act_settle_of_rolled {tray : Tray} (h : tray.Sound o p) (view : View) {e : Event}
    (hLatest : tray.hand.latest? = some e) :
    tray.act o (fun t => tray.hand.throw.settle t) view =
      (view.ofGroups o e.groups).map fun answer => ⟨answer, [], { tray with
        hand := ⟨tray.hand.throw,
          ⟨tray.setting.table.limits, [], e.groups⟩ :: tray.hand.past⟩ }⟩ := by
  have hSome : tray.hand.throw.groups?.isSome = true := by rw [h.hand.groups?_eq, hLatest]; rfl
  have hRead : view.ofThrow o tray.hand.throw = view.ofGroups o tray.hand.throw.groups :=
    View.ofThrow_eq h.hand.isScored h.hand.isHeldBy
  rw [act, Setting.perform_settle_of_rolled hSome, ← h.hand.groups_eq hLatest, ← hRead]

/-- Reading a throw that was never rolled is rolling it. -/
theorem Sound.act_settle_of_not_rolled {tray : Tray} (h : tray.Sound o p) (view : View)
    (hLatest : tray.hand.latest? = none) :
    tray.act o (fun t => tray.hand.throw.settle t) view =
      tray.act o (fun t => tray.hand.throw.roll t) view := by
  rw [act, act, Setting.perform_settle_of_not_rolled (h.hand.latest?_eq_none_iff.1 hLatest)]

/-- The last groups can be looked at without stopping, since they were scored before. -/
theorem Sound.lastIn_eq {tray : Tray} (h : tray.Sound o p) :
    tray.hand.throw.lastIn o =
      some (tray.hand.latest?.map fun e => e.groups.map Group.scored) := by
  rw [Throw.lastIn_eq h.hand.isScored h.hand.isHeldBy, h.hand.groups?_eq, Option.map_map]
  rfl

/-- A deed leaves a sound tray. -/
theorem Sound.step {tray : Tray} (h : tray.Sound o p) {deed : Deed} (hFair : deed.Fair p.sides)
    {report : Report} (hReport : tray.step o deed = some report) : report.tray.Sound o p := by
  cases deed with
  | roll => exact (h.act_roll hReport).2.1
  | read view =>
      rw [Tray.step] at hReport
      cases hLatest : tray.hand.latest? with
      | none =>
          rw [h.act_settle_of_not_rolled view hLatest] at hReport
          exact (h.act_roll hReport).2.1
      | some e =>
          have hRolled : tray.hand.throw.groups? ≠ none := by simp [h.hand.groups?_eq, hLatest]
          rw [h.act_settle_of_rolled view hLatest] at hReport
          obtain ⟨answer, -, rfl⟩ := Option.map_eq_some_iff.1 hReport
          exact ⟨h.hand.of_not_drawn rfl hRolled, h.saved, h.fair⟩
  | last =>
      obtain ⟨groups?, -, rfl⟩ := Option.map_eq_some_iff.1 hReport
      exact h
  | save =>
      obtain rfl := Option.some.inj hReport
      refine ⟨h.hand, ?_, h.fair⟩
      intro copy hCopy
      rcases List.mem_append.1 hCopy with hSaved | hHand
      · exact h.saved copy hSaved
      · exact List.mem_singleton.1 hHand ▸ h.hand
  | restore place =>
      obtain rfl := Option.some.inj hReport
      refine ⟨?_, h.saved, h.fair⟩
      change ((tray.saved[place]?).getD tray.hand).Sound o p
      cases hPlace : tray.saved[place]? with
      | none => exact h.hand
      | some copy => exact h.saved copy (List.mem_of_getElem? hPlace)
  | use setting =>
      obtain rfl := Option.some.inj hReport
      exact ⟨h.hand, h.saved, hFair⟩

theorem run_cons (o : Overflow) (tray : Tray) (deed : Deed) (deeds : List Deed) :
    tray.run o (deed :: deeds) = (tray.step o deed).bind fun report => report.tray.run o deeds := by
  rw [run, List.foldlM_cons]
  cases tray.step o deed <;> rfl

/-- Soundness is kept over all deeds. -/
theorem Sound.run {tray after : Tray} (h : tray.Sound o p) {deeds : List Deed}
    (hFair : ∀ deed ∈ deeds, deed.Fair p.sides) (hRun : tray.run o deeds = some after) :
    after.Sound o p := by
  induction deeds generalizing tray with
  | nil =>
      obtain rfl := Option.some.inj hRun
      exact h
  | cons deed deeds ih =>
      obtain ⟨hDeed, hDeeds⟩ := List.forall_mem_cons.1 hFair
      rw [run_cons] at hRun
      obtain ⟨report, hReport, hRest⟩ := Option.bind_eq_some_iff.1 hRun
      exact ih (h.step hDeed hReport) hDeeds hRest

/-- A program that does not come to the end stops at one of the deeds. -/
theorem run_eq_none_iff {tray : Tray} {deeds : List Deed} :
    tray.run o deeds = none ↔ ∃ before deed after, deeds = before ++ deed :: after ∧
      ∃ middle ∈ tray.run o before, middle.step o deed = none := by
  induction deeds generalizing tray with
  | nil => simp [Tray.run]
  | cons first rest ih =>
      rw [run_cons, Option.bind_eq_none_iff]
      constructor
      · intro hRest
        cases hStep : tray.step o first with
        | none => exact ⟨[], first, rest, rfl, tray, rfl, hStep⟩
        | some report =>
            obtain ⟨before, deed, after, rfl, middle, hRun, hNone⟩ := ih.1 (hRest report hStep)
            refine ⟨first :: before, deed, after, rfl, middle, ?_, hNone⟩
            rw [run_cons, hStep]
            exact hRun
      · rintro ⟨before, deed, after, hSplit, middle, hRun, hNone⟩ report hStep
        rcases before with _ | ⟨_, before⟩
        · obtain ⟨rfl, rfl⟩ := List.cons.inj hSplit
          obtain rfl := Option.some.inj hRun
          rw [hNone] at hStep
          cases hStep
        · obtain ⟨rfl, rfl⟩ := List.cons.inj hSplit
          rw [run_cons, hStep] at hRun
          exact ih.2 ⟨before, deed, after, rfl, middle, hRun, hNone⟩

/-- What holds of a tray whatever was done before, and of what can be done next. -/
structure Disciplined (o : Overflow) (p : Pool) (tray : Tray) : Prop where
  hand : tray.hand.Sound o p
  saved : ∀ copy ∈ tray.saved, copy.Sound o p
  /-- Only numbers that are no totals stop a program, and only one that does not wrap them. -/
  step_eq_none_iff : ∀ deed, tray.step o deed = none ↔ o = .stops ∧ tray.LeavesRange deed
  /-- Only a roll draws, and a reading of a throw that holds no groups. -/
  drawn_ne_nil_iff : ∀ deed, ∀ report ∈ tray.step o deed, report.drawn ≠ [] ↔
    deed = .roll ∨ tray.hand.throw.groups? = none ∧ ∃ view, deed = .read view
  /-- A throw that holds groups is read as the latest event left it, and stays so. -/
  read_held : ∀ view, ∀ e ∈ tray.hand.latest?,
    (tray.step o (.read view)).map Report.answer = view.ofGroups o e.groups ∧
      ∀ report ∈ tray.step o (.read view),
        report.tray.hand.throw = tray.hand.throw ∧ report.tray.setting = tray.setting
  /-- A throw that holds none is read as it is drawn. -/
  read_fresh : ∀ view, tray.hand.latest? = none → ∀ report ∈ tray.step o (.read view),
    ∃ e ∈ report.tray.hand.latest?,
      e.drawn = report.drawn ∧ view.ofGroups o e.groups = some report.answer
  /-- A roll shows the groups that it draws. -/
  roll : ∀ report ∈ tray.step o .roll, ∃ e ∈ report.tray.hand.latest?,
    e.drawn = report.drawn ∧ View.groups.ofGroups o e.groups = some report.answer
  last : tray.step o .last = some {
    answer := .last (tray.hand.latest?.map fun e => e.groups.map Group.scored), tray }

/-- A deed stops the program exactly if it brings about a number that is no total, where such
numbers are not wrapped. -/
theorem Sound.step_eq_none_iff {tray : Tray} (h : tray.Sound o p) (deed : Deed) :
    tray.step o deed = none ↔ o = .stops ∧ tray.LeavesRange deed := by
  cases deed with
  | roll => rw [Tray.step, act_eq_none_iff h.isScored_roll, LeavesRange]
  | read view => rw [Tray.step, act_eq_none_iff h.isScored_settle, LeavesRange]
  | last => simp [Tray.step, LeavesRange, h.lastIn_eq]
  | save | restore _ | use _ => simp [Tray.step, LeavesRange]

/-- Rolling always draws; reading does as long as the throw in hand holds no groups, and nothing
else ever does. -/
theorem Sound.drawn_ne_nil_iff {tray : Tray} (h : tray.Sound o p) {deed : Deed} {report : Report}
    (hReport : tray.step o deed = some report) :
    report.drawn ≠ [] ↔
      deed = .roll ∨ tray.hand.throw.groups? = none ∧ ∃ view, deed = .read view := by
  cases deed with
  | roll => simpa using (h.act_roll hReport).1
  | read view =>
      rw [Tray.step] at hReport
      rw [← h.hand.latest?_eq_none_iff]
      cases hLatest : tray.hand.latest? with
      | none =>
          rw [h.act_settle_of_not_rolled view hLatest] at hReport
          simpa using (h.act_roll hReport).1
      | some e =>
          rw [h.act_settle_of_rolled view hLatest] at hReport
          obtain ⟨answer, -, rfl⟩ := Option.map_eq_some_iff.1 hReport
          simp
  | last =>
      obtain ⟨groups?, -, rfl⟩ := Option.map_eq_some_iff.1 hReport
      simp
  | save | restore _ | use _ =>
      obtain rfl := Option.some.inj hReport
      simp

/-- A sound tray is disciplined, each deed by the lemma on its action. -/
theorem Sound.disciplined {tray : Tray} (h : tray.Sound o p) : tray.Disciplined o p where
  hand := h.hand
  saved := h.saved
  step_eq_none_iff := h.step_eq_none_iff
  drawn_ne_nil_iff _ _ hReport := h.drawn_ne_nil_iff hReport
  read_held view e hLatest := by
    rw [Tray.step, h.act_settle_of_rolled view hLatest]
    refine ⟨by rw [Option.map_map]; exact congrFun Option.map_id _, ?_⟩
    intro report hReport
    obtain ⟨answer, -, rfl⟩ := Option.map_eq_some_iff.1 hReport
    exact ⟨rfl, rfl⟩
  read_fresh view hLatest report hReport := by
    rw [Tray.step, h.act_settle_of_not_rolled view hLatest] at hReport
    exact (h.act_roll hReport).2.2
  roll _ hReport := (h.act_roll hReport).2.2
  last := by rw [Tray.step, h.lastIn_eq]; rfl

/-- Whatever is done with a throw and its copies, on any tables that show proper faces. A program
either wraps totals around or stops at a number that is no total. As long as it goes on everything
is in order, and it stops at no other deed than one that brings about such a number. -/
theorem disciplined_run (o : Overflow) (setting : Setting) (deeds : List Deed)
    (hSetting : setting.Fair p.sides) (hDeeds : ∀ deed ∈ deeds, deed.Fair p.sides) :
    (∀ tray ∈ (start p setting).run o deeds, tray.Disciplined o p) ∧
      ((start p setting).run o deeds = none ↔ o = .stops ∧
        ∃ before deed after, deeds = before ++ deed :: after ∧
          ∃ tray ∈ (start p setting).run o before, tray.LeavesRange deed) := by
  have hStart : (start p setting).Sound o p := sound_start hSetting
  refine ⟨fun tray hRun => (hStart.run hDeeds hRun).disciplined, ?_⟩
  have hSound : ∀ before deed after, deeds = before ++ deed :: after →
      ∀ tray ∈ (start p setting).run o before, tray.Sound o p := by
    rintro before deed after rfl tray hRun
    exact hStart.run (fun earlier hEarlier => hDeeds earlier (List.mem_append_left _ hEarlier)) hRun
  rw [run_eq_none_iff]
  constructor
  · rintro ⟨before, deed, after, hSplit, tray, hRun, hStep⟩
    obtain ⟨hStops, hLeaves⟩ :=
      ((hSound before deed after hSplit tray hRun).step_eq_none_iff deed).1 hStep
    exact ⟨hStops, before, deed, after, hSplit, tray, hRun, hLeaves⟩
  · rintro ⟨hStops, before, deed, after, hSplit, tray, hRun, hLeaves⟩
    exact ⟨before, deed, after, hSplit, tray, hRun,
      ((hSound before deed after hSplit tray hRun).step_eq_none_iff deed).2 ⟨hStops, hLeaves⟩⟩

/-- Two groups of chained dice: a copy is saved before anything is drawn, taken up again after a
roll, and read on another table. -/
theorem disciplined_run_of_six_deeds :
    let pool : Pool := ⟨{ times := 2, count := 2, sides := 6, explode := 6, chain := true },
      by decide, by decide, by decide⟩
    let setting : Setting := ⟨Nat, { shaker := Tape.highest, limits := { explode := 3 } }, 0⟩
    let other : Setting := ⟨Unit, { shaker := fun _ => pure 1 }, ()⟩
    let deeds : List Deed := [.save, .roll, .restore 0, .use other, .read .total, .save]
    setting.Fair pool.sides ∧ (∀ deed ∈ deeds, deed.Fair pool.sides) ∧
      ∃ tray, (start pool setting).run .wraps deeds = some tray ∧ tray.Disciplined .wraps pool := by
  intro pool setting other deeds
  have hSetting : setting.Fair pool.sides := fun _ => by
    show 1 ≤ 6 ∧ 6 ≤ 6
    decide
  have hOther : other.Fair pool.sides := fun _ => by
    show 1 ≤ 1 ∧ 1 ≤ 6
    decide
  have hDeeds : ∀ deed ∈ deeds, deed.Fair pool.sides := by
    simp [deeds, Deed.Fair, hOther]
  obtain ⟨hDisciplined, hNone⟩ := disciplined_run .wraps setting deeds hSetting hDeeds
  obtain ⟨tray, hRun⟩ : ∃ tray, (start pool setting).run .wraps deeds = some tray := by
    refine Option.ne_none_iff_exists'.1 fun hStopped => ?_
    exact absurd (hNone.1 hStopped).1 (by decide)
  exact ⟨hSetting, hDeeds, tray, hRun, hDisciplined tray hRun⟩

example :
    let pool : Pool := ⟨{ times := 2, sides := 3000000000, multiplier := 2000000000 },
      by decide, by decide, by decide⟩
    let tray := start pool ⟨Nat, { shaker := Tape.highest }, 0⟩
    (tray.step .wraps (.read .total)).map Report.answer = some (.total (-6446744073709551616)) ∧
      (tray.step .stops (.read .total)).map Report.answer = none ∧
      (tray.step .stops (.read .tallies)).map Report.answer =
        some (.tallies [[3000000000], [3000000000]]) := by
  decide +kernel

end Tray

end DiceTray
