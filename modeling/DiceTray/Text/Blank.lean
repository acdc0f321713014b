/-!
Blank characters: the Unicode property `White_Space`. Scripts may be laid out with blanks freely,
so reading removes them all (`strip`); a label keeps those inside it and loses those at its ends
(`trim`).
-/
namespace DiceTray.Text

/-- The code points with the property `White_Space`, first and last of each range. -/
def blankRanges : List (Nat × Nat) :=
  [(0x09, 0x0d), (0x20, 0x20), (0x85, 0x85), (0xa0, 0xa0), (0x1680, 0x1680), (0x2000, 0x200a),
   (0x2028, 0x2029), (0x202f, 0x202f), (0x205f, 0x205f), (0x3000, 0x3000)]

def inRanges (ranges : List (Nat × Nat)) (c : Char) : Bool :=
  ranges.any fun (first, last) => first ≤ c.toNat && c.toNat ≤ last

def isBlank (c : Char) : Bool := inRanges blankRanges c

/-- The text without its blanks. -/
def strip (cs : List Char) : List Char := cs.filter fun c => !isBlank c

def trim (cs : List Char) : List Char :=
  ((cs.dropWhile isBlank).reverse.dropWhile isBlank).reverse

theorem mem_strip {c : Char} {cs : List Char} : c ∈ strip cs ↔ c ∈ cs ∧ isBlank c = false := by
  simp [strip]

theorem isBlank_of_mem_strip {c : Char} {cs : List Char} (h : c ∈ strip cs) :
    isBlank c = false :=
  (mem_strip.1 h).2

/-- Blanks can be taken out in parts. -/
theorem strip_append (as bs : List Char) : strip (as ++ bs) = strip as ++ strip bs :=
  List.filter_append ..

theorem strip_strip (cs : List Char) : strip (strip cs) = strip cs := by
  simp [strip, List.filter_filter]

theorem strip_dropWhile (cs : List Char) : strip (cs.dropWhile isBlank) = strip cs := by
  induction cs with
  | nil => rfl
  | cons c cs ih =>
    rw [List.dropWhile_cons]
    split
    · rename_i hBlank
      rw [ih]
      simp [strip, hBlank]
    · rfl

/-- The blanks at the ends are among those that are removed. -/
theorem strip_trim (cs : List Char) : strip (trim cs) = strip cs := by
  have hReverse : ∀ cs : List Char, strip cs.reverse = (strip cs).reverse :=
    fun cs => List.filter_reverse ..
  rw [trim, hReverse, strip_dropWhile, hReverse, List.reverse_reverse, strip_dropWhile]

end DiceTray.Text
