import DiceTray.Proofs.Section.Layout
import DiceTray.Proofs.Section.Partition
import DiceTray.Proofs.Section.Words

/-! The case of letters. Capitals and small letters play the same part in a text, so it is cut into
the same pieces, and these are read as the same operands. Main statement: outside the first aside,
the case of letters shows in plain text only. -/
namespace DiceTray
open Text

theorem toLower_of_not_isUpper {c : Char} (h : c.isUpper = false) : c.toLower = c :=
  dif_neg (of_decide_eq_false h)

def capitals : List Char :=
  ['A', 'B', 'C', 'D', 'E', 'F', 'G', 'H', 'I', 'J', 'K', 'L', 'M', 'N', 'O', 'P', 'Q', 'R', 'S',
    'T', 'U', 'V', 'W', 'X', 'Y', 'Z']

/-- There are no more capitals than the ones listed. -/
theorem mem_capitals_of_isUpper {c : Char} (h : c.isUpper = true) : c ∈ capitals := by
  have hWord : isWordChar c = true := by
    change (c.isUpper || c.isLower || c.isDigit || c == '%' || c == '*' || c == '!') = true
    simp [h]
  exact of_isWordChar (fun c => c.isUpper = true → c ∈ capitals) hWord (by decide +kernel) h

/-- What the capitals share with their small letters, every character shares with its own. -/
theorem apply_toLower {α : Type} (f : Char → α)
    (h : (capitals.map fun c => f c.toLower) = capitals.map f) (c : Char) :
    f c.toLower = f c := by
  cases hUpper : c.isUpper with
  | false => rw [toLower_of_not_isUpper hUpper]
  | true => exact List.map_inj_left.1 h c (mem_capitals_of_isUpper hUpper)

theorem toLower_toLower (c : Char) : c.toLower.toLower = c.toLower :=
  apply_toLower Char.toLower (by decide +kernel) c

theorem isBlank_toLower (c : Char) : isBlank c.toLower = isBlank c :=
  apply_toLower isBlank (by decide +kernel) c

theorem isDigit_toLower (c : Char) : c.toLower.isDigit = c.isDigit :=
  apply_toLower Char.isDigit (by decide +kernel) c

theorem isWordChar_toLower (c : Char) : isWordChar c.toLower = isWordChar c :=
  apply_toLower isWordChar (by decide +kernel) c

theorem isLoose_toLower (c : Char) : isLoose c.toLower = isLoose c :=
  apply_toLower isLoose (by decide +kernel) c

/-- Nothing else becomes one of these characters. -/
theorem toLower_eq_iff {mark : Char} (hMark : mark ∈ ['(', ')', ',']) {c : Char} :
    c.toLower = mark ↔ c = mark := by
  have hMarks := apply_toLower (fun c => ['(', ')', ','].map fun mark => decide (c = mark))
    (by decide +kernel) c
  rw [← decide_eq_decide]
  exact List.map_inj_left.1 hMarks mark hMark

/-- The marks that cut up a text are no letters. -/
theorem mem_map_toLower_iff {mark : Char} (hMark : mark ∈ ['(', ')', ',']) {cs : List Char} :
    mark ∈ cs.map Char.toLower ↔ mark ∈ cs := by
  simp [toLower_eq_iff hMark]

namespace Piece

def folded (p : Piece) : Piece := { p with text := p.text.map Char.toLower }

/-- Whether a stray piece begins does not hang on the case of letters. -/
theorem beginsStray_toLower {cs : List Char} :
    BeginsStray (cs.map Char.toLower) ↔ BeginsStray cs := by
  cases cs with
  | nil => rfl
  | cons c cs =>
      rw [List.map_cons, BeginsStray, BeginsStray, isLoose_toLower, toLower_eq_iff (by decide),
        mem_map_toLower_iff (by decide)]

/-- A text in small letters is cut up at the same places, as a run of one kind of character stays
one. -/
theorem Partition.folded {pieces : List Piece} {cs : List Char} (h : Partition pieces cs) :
    Partition (pieces.map Piece.folded) (cs.map Char.toLower) := by
  have hRun : ∀ {kind : Char → Bool}, (∀ c, kind c.toLower = kind c) → ∀ {run : List Char},
      (∀ c ∈ run, kind c = true) → ∀ c ∈ run.map Char.toLower, kind c = true := by
    intro kind hKind run hAll
    exact List.forall_mem_map.2 fun c hc => (hKind c).trans (hAll c hc)
  induction h with
  | nil => exact Partition.nil
  | @sign s pieces cs rest ih =>
      have hSign : s.chars.map Char.toLower = s.chars := by cases s <;> decide
      rw [List.map_cons, List.map_append, hSign, Piece.folded, hSign]
      exact Partition.sign s ih
  | @aside inside pieces cs hInside rest ih =>
      have hLower := mt (mem_map_toLower_iff (by decide)).1 hInside
      have hAll := Partition.aside hLower ih
      simpa [Piece.folded] using hAll
  | @word w pieces cs hNe hWord hLongest rest ih =>
      rw [List.map_cons, List.map_append]
      refine Partition.word (by simpa using hNe) (hRun isWordChar_toLower hWord) ?_ ih
      intro c hc
      rw [List.head?_map] at hc
      obtain ⟨d, hd, rfl⟩ := Option.map_eq_some_iff.1 hc
      rw [isWordChar_toLower]
      exact hLongest d hd
  | @stray run pieces cs hNe hLoose hLongest rest ih =>
      rw [List.map_cons, List.map_append]
      exact Partition.stray (by simpa using hNe) (hRun isLoose_toLower hLoose)
        (mt beginsStray_toLower.1 hLongest) ih
  | @unclosed run opened hLoose hOpened =>
      have hLower := mt (mem_map_toLower_iff (by decide)).1 hOpened
      have hAll := Partition.unclosed (hRun isLoose_toLower hLoose) hLower
      simpa [Piece.folded] using hAll

/-- The case of letters does not change how a text is cut into pieces. -/
theorem scan_map_toLower (cs : List Char) :
    scan (cs.map Char.toLower) = (scan cs).map folded :=
  (partition_scan cs).folded.eq_scan.symm

end Piece

/-- The operand with capitals made small in plain text. -/
def Operand.folded : Operand → Operand
  | .plain text => .plain text.toLower
  | o => o

def Item.folded (item : Item) : Item := { item with operand := item.operand.folded }

def Section.folded (s : Section) : Section := { s with items := s.items.map Item.folded }

/-- A string is put into small letters character by character. -/
theorem toLower_ofList (cs : List Char) :
    (String.ofList cs).toLower = String.ofList (cs.map Char.toLower) := by
  apply String.toList_injective
  change ((String.ofList cs).map Char.toLower).toList = _
  rw [String.toList_map, String.toList_ofList, String.toList_ofList]

/-- A word in small letters is the same number or the same dice, and else the folded plain text. -/
theorem Operand.ofWord_map_toLower (w : List Char) :
    ofWord (w.map Char.toLower) = (ofWord w).folded := by
  have hAll : (w.map Char.toLower).all Char.isDigit = w.all Char.isDigit := by
    rw [List.all_map]
    exact congrArg w.all (funext isDigit_toLower)
  have hLower : (w.map Char.toLower).map Char.toLower = w.map Char.toLower := by
    rw [List.map_map]
    exact List.map_congr_left fun c _ => toLower_toLower c
  rw [ofWord, ofWord, hAll, hLower, ← toLower_ofList]
  cases hDigits : w.all Char.isDigit with
  | true =>
      have hSame : w.map Char.toLower = w.map id := List.map_congr_left fun c hc =>
        toLower_of_isDigit (List.all_eq_true.1 hDigits c hc)
      rw [hSame, List.map_id]
      split
      · rfl
      · cases Pool.ofChars w <;> rfl
  | false => cases Pool.ofChars (w.map Char.toLower) <;> rfl

theorem signedOperands_folded (pending : Option Sign) (pieces : List Piece) :
    signedOperands pending (pieces.map Piece.folded) =
      (signedOperands pending pieces).map fun (sign?, operand) => (sign?, operand.folded) := by
  induction pieces generalizing pending with
  | nil => rfl
  | cons p pieces ih =>
      rcases p with ⟨kind, text⟩
      cases kind with
      | sign s => exact ih (some s)
      | aside => exact ih pending
      | word =>
          rw [List.map_cons, Piece.folded, signedOperands, signedOperands, ih none,
            Operand.ofWord_map_toLower]
          rfl
      | stray =>
          rw [List.map_cons, Piece.folded, signedOperands, signedOperands, ih none,
            ← toLower_ofList]
          rfl

theorem itemsOf_folded (operands : List (Option Sign × Operand)) :
    itemsOf (operands.map fun (sign?, operand) => (sign?, operand.folded)) =
      (itemsOf operands).map Item.folded := by
  cases operands with
  | nil => rfl
  | cons first rest => simp [itemsOf, Item.folded]

theorem strip_map_toLower (cs : List Char) :
    strip (cs.map Char.toLower) = (strip cs).map Char.toLower := by
  rw [strip, strip, List.filter_map]
  simp only [Function.comp_def, isBlank_toLower]

/-- The items of a text in small letters are the folded items. -/
theorem Section.readItems_map_toLower (cs : List Char) :
    readItems (cs.map Char.toLower) = (readItems cs).map Item.folded := by
  rw [readItems, readItems, strip_map_toLower, Piece.scan_map_toLower, signedOperands_folded,
    itemsOf_folded]

theorem keepsOpen_map_toLower : KeepsOpen (List.map Char.toLower) where
  append _ _ := List.map_append
  not_mem _ := mt (mem_map_toLower_iff (by decide)).1
  hasNoAside cs hOpen hSub := by
    obtain ⟨kept, hKept, hEq⟩ := List.sublist_map_iff.1 hSub
    obtain ⟨opening, rest, rfl, hOpening, hRest⟩ := List.map_eq_cons_iff.1 hEq.symm
    obtain ⟨closing, rest, rfl, hClosing, hEnd⟩ := List.map_eq_cons_iff.1 hRest
    obtain rfl := List.map_eq_nil_iff.1 hEnd
    rw [toLower_eq_iff (by decide)] at hOpening hClosing
    rw [hOpening, hClosing] at hKept
    exact hOpen hKept

/-- Outside the first aside, the case of letters does not matter but in plain text. -/
theorem Section.read_outsideAside_toLower (cs : List Char) :
    read (outsideAside (List.map Char.toLower) cs) = (read cs).folded :=
  read_outsideAside keepsOpen_map_toLower readItems_map_toLower cs

end DiceTray
