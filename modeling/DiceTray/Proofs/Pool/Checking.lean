import DiceTray.Proofs.Pool.Grammar
import DiceTray.Proofs.Pool.Stages

/-! Reading goes through the stages. What reads a text takes tokens for each of its parts in turn;
what is found at fault in that way is what is found if the tokens are gone through one by one, with
nothing but the stage kept. -/
namespace DiceTray

namespace Stage

/-- What is asked for where something else follows. -/
def wanted : Stage → List Mark
  | .start | .first | .times | .second => [.dice]
  | .dice => [.number]
  | .settled | .bare => Mark.modifiers

def limit : Stage → Nat
  | .start | .first | .times | .second => groupDigits
  | .dice => sidesDigits
  | .settled | .bare => amountDigits

/-- Goes through tokens, stage by stage, up to the first fault. -/
def check (s : Stage) : List Token → Except Fault Unit
  | [] => if s.isComplete then .ok () else .error (.incomplete s.wanted)
  | t :: rest =>
    match s.next t.mark with
    | none => .error (.unexpected t s.wanted)
    | some s' =>
      if t.mark = .number ∧ s.limit < t.text.length then .error (.tooLong t s.limit)
      else check s' rest

/-- The walk ends at a mark that the stage does not go on with. -/
theorem check_of_next_eq_none {s : Stage} {t : Token} (h : s.next t.mark = none)
    (rest : List Token) : s.check (t :: rest) = .error (.unexpected t s.wanted) := by
  rw [check, h]

/-- A mark that is no number leads on to the next stage. -/
theorem check_of_next {s s' : Stage} {t : Token} (h : s.next t.mark = some s')
    (hMark : t.mark ≠ .number) (rest : List Token) : s.check (t :: rest) = s'.check rest := by
  rw [check, h]
  exact if_neg fun hLong => hMark hLong.1

/-- A number leads on unless it has too many digits for the stage. -/
theorem check_of_number {s s' : Stage} {t : Token} (h : s.next t.mark = some s')
    (hMark : t.mark = .number) (rest : List Token) :
    s.check (t :: rest) = Phrase.amount s.limit t >>= fun _ => s'.check rest := by
  rw [check, h, Phrase.amount]
  by_cases hLong : s.limit < t.text.length
  · rw [if_pos hLong]
    exact if_pos ⟨hMark, hLong⟩
  · rw [if_neg hLong]
    exact if_neg fun hBoth => hLong hBoth.2

/-- The walk ends at a number that is welcome and too long. -/
theorem check_of_long {s : Stage} {t : Token} (h : (s.next t.mark).isSome = true)
    (hMark : t.mark = .number) (hLong : s.limit < t.text.length) (rest : List Token) :
    s.check (t :: rest) = .error (.tooLong t s.limit) := by
  obtain ⟨s', hNext⟩ := Option.isSome_iff_exists.1 h
  rw [check_of_number hNext hMark, Phrase.amount, if_pos hLong]
  rfl

end Stage

namespace Phrase

/-- A bare affix is followed by what may follow a term, unless that is a number. -/
theorem check_bare {tokens : List Token} (h : ∀ t ∈ tokens.head?, t.mark ≠ .number) :
    Stage.bare.check tokens = Stage.settled.check tokens := by
  cases tokens with
  | nil => rfl
  | cons t rest =>
      rw [Stage.check, Stage.check, Stage.next_bare (h t rfl)]
      rfl

/-- Behind a settled term there are only modifiers. -/
theorem check_settled (t : Token) (rest : List Token) :
    Stage.settled.check (t :: rest) = modifierOf t >>= fun _ => Stage.bare.check rest := by
  rw [modifierOf]
  cases hModifier : t.mark.modifier? with
  | none =>
      refine Stage.check_of_next_eq_none ?_ rest
      rw [Stage.next_settled, hModifier]
      rfl
  | some modifier =>
      have hMark : t.mark ≠ .number := by
        intro hNumber
        rw [hNumber] at hModifier
        cases hModifier
      refine Stage.check_of_next ?_ hMark rest
      rw [Stage.next_settled, hModifier]
      rfl

/-- Reading suffixes fails exactly as the walk from a settled term does. -/
theorem suffixesOf_check (tokens : List Token) :
    (suffixesOf tokens).map (fun _ => ()) = Stage.settled.check tokens := by
  fun_induction suffixesOf tokens with
  | case1 => rfl
  | case2 t =>
      rw [check_settled]
      cases modifierOf t <;> rfl
  | case3 t next rest ihAmount ihBare =>
      rw [check_settled]
      cases modifierOf t with
      | error fault => rfl
      | ok modifier =>
          change (if next.mark = .number then _ else _ : Except Fault (List Suffix)).map _ =
            Stage.bare.check (next :: rest)
          by_cases hNumber : next.mark = .number
          · rw [if_pos hNumber, Stage.check_of_number (by rw [hNumber]; rfl) hNumber]
            change _ = amount amountDigits next >>= fun _ => Stage.settled.check rest
            cases amount amountDigits next with
            | error fault => rfl
            | ok n =>
                refine Eq.trans ?_ ihAmount
                cases suffixesOf rest <;> rfl
          · rw [if_neg hNumber, check_bare (by simpa using hNumber), ← ihBare]
            cases suffixesOf (next :: rest) <;> rfl

/-- Reading the sides and what follows fails exactly as the walk from the dice mark does. -/
theorem sidesOf_check (tokens : List Token) :
    (sidesOf tokens >>= fun sides => suffixesOf sides.2).map (fun _ => ()) =
      Stage.dice.check tokens := by
  cases tokens with
  | nil => rfl
  | cons t rest =>
      rw [sidesOf]
      by_cases hPercent : t.mark = .percent
      · rw [if_pos hPercent,
          Stage.check_of_next (by rw [hPercent]; rfl) (by rw [hPercent]; decide),
          ← suffixesOf_check]
        rfl
      · by_cases hNumber : t.mark = .number
        · rw [if_neg hPercent, if_pos hNumber,
            Stage.check_of_number (by rw [hNumber]; rfl) hNumber, ← suffixesOf_check]
          change (amount sidesDigits t >>= _ >>= _).map _ = amount sidesDigits t >>= _
          cases amount sidesDigits t <;> rfl
        · rw [if_neg hPercent, if_neg hNumber, Stage.check_of_next_eq_none]
          · rfl
          · cases hMark : t.mark with
            | number => exact absurd hMark hNumber
            | percent => exact absurd hMark hPercent
            | _ => rfl

def dicePart (tokens : List Token) : Except Fault Unit :=
  (afterDice tokens >>= fun rest => sidesOf rest >>= fun sides => suffixesOf sides.2).map
    fun _ => ()

/-- Before the dice mark, a stage is left by that mark where nothing else is at the front that can
follow. -/
theorem dicePart_check {s : Stage} (hWanted : s.wanted = [.dice])
    (hDice : s.next .dice = some .dice) (hComplete : s.isComplete = false) {tokens : List Token}
    (hHead : ∀ t ∈ tokens.head?, t.mark ≠ .dice → s.next t.mark = none) :
    dicePart tokens = s.check tokens := by
  cases tokens with
  | nil => rw [Stage.check, hComplete, hWanted]; rfl
  | cons t rest =>
      rw [dicePart, afterDice]
      by_cases hMark : t.mark = .dice
      · rw [if_pos hMark, Stage.check_of_next (by rw [hMark]; exact hDice) (by rw [hMark]; decide),
          ← sidesOf_check]
        rfl
      · rw [if_neg hMark, Stage.check_of_next_eq_none (hHead t rfl hMark), hWanted]
        rfl

/-- Reading the count and what follows fails exactly as the walk from the times mark does. -/
theorem count_check (tokens : List Token) :
    (amount? groupDigits tokens >>= fun count => dicePart count.2) = Stage.times.check tokens := by
  cases tokens with
  | nil => rfl
  | cons t rest =>
      rw [amount?]
      by_cases hNumber : t.mark = .number
      · have hRest : dicePart rest = Stage.second.check rest := by
          refine dicePart_check rfl rfl rfl fun u _ hMark => ?_
          cases hu : u.mark with
          | dice => exact absurd hu hMark
          | _ => rfl
        rw [if_pos hNumber, Stage.check_of_number (by rw [hNumber]; rfl) hNumber, ← hRest]
        change (amount groupDigits t >>= _) >>= _ = amount groupDigits t >>= _
        cases amount groupDigits t <;> rfl
      · rw [if_neg hNumber]
        refine dicePart_check rfl rfl rfl ?_
        rintro _ ⟨⟩ hMark
        cases ht : t.mark with
        | number => exact absurd ht hNumber
        | dice => exact absurd ht hMark
        | _ => rfl

/-- Reading the numbers in front and what follows fails as the walk from the start does. A number
that comes first is the times if a times mark follows, and else the count. -/
theorem groups_check (tokens : List Token) :
    (groups? tokens >>= fun groups => dicePart groups.2) = Stage.start.check tokens := by
  cases tokens with
  | nil => rfl
  | cons t rest =>
      by_cases hNumber : t.mark = .number
      · rw [Stage.check_of_number (by rw [hNumber]; rfl) hNumber]
        change _ = amount groupDigits t >>= fun _ => Stage.first.check rest
        cases hAmount : amount groupDigits t with
        | error fault =>
            rw [groups?, amount?, if_pos hNumber, hAmount]
            rfl
        | ok n =>
            have hFirst : amount? groupDigits (t :: rest) = .ok (some n, rest) := by
              rw [amount?, if_pos hNumber, hAmount]
              rfl
            by_cases hTimes : ∃ u later, rest = u :: later ∧ u.mark = .times
            · obtain ⟨u, later, rfl, hu⟩ := hTimes
              change _ = Stage.first.check (u :: later)
              rw [groups?_of_times hFirst hu, bind_assoc,
                Stage.check_of_next (by rw [hu]; rfl) (by rw [hu]; decide), ← count_check]
              rfl
            · have hRest : ∀ u ∈ rest.head?, u.mark ≠ .times := by
                intro u hu hMark
                obtain ⟨later, rfl⟩ := List.head?_eq_some_iff.1 hu
                exact hTimes ⟨u, later, rfl, hMark⟩
              rw [groups?_of_amount? hFirst hRest]
              refine dicePart_check rfl rfl rfl fun u hu hMark => ?_
              cases hm : u.mark with
              | times => exact absurd hm (hRest u hu)
              | dice => exact absurd hm hMark
              | _ => rfl
      · have hNone : amount? groupDigits (t :: rest) = .ok (none, t :: rest) := by
          rw [amount?, if_neg hNumber]
        rw [groups?, hNone]
        refine dicePart_check rfl rfl rfl ?_
        rintro _ ⟨⟩ hMark
        cases ht : t.mark with
        | number => exact absurd ht hNumber
        | dice => exact absurd ht hMark
        | _ => rfl

/-- Reading finds the fault that going through the stages finds. -/
theorem ofTokens_check (tokens : List Token) :
    (ofTokens tokens).map (fun _ => ()) = Stage.start.check tokens := by
  rw [← groups_check, ofTokens]
  cases groups? tokens with
  | error fault => rfl
  | ok groups =>
      change Except.map _ (afterDice groups.2 >>= _) = dicePart groups.2
      rw [dicePart]
      cases afterDice groups.2 with
      | error fault => rfl
      | ok rest =>
          change Except.map _ (sidesOf rest >>= _) = Except.map _ (sidesOf rest >>= _)
          cases sidesOf rest with
          | error fault => rfl
          | ok sides =>
              change Except.map _ (suffixesOf sides.2 >>= _) = Except.map _ (suffixesOf sides.2)
              cases suffixesOf sides.2 <;> rfl

end Phrase

end DiceTray
