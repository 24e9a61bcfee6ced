import BearerSession.Text.CaseTable
import BearerSession.Text.PrintTable

/-!
# Character classes and letter case

White space, blanks, visible characters and lower case, for all of Unicode. On ASCII the case
mapping is the one of the core library, and the tables speak only of what lies beyond.
-/

namespace BearerSession.Text

/-- Whether one of the ranges holds the code point. -/
def inRanges (ranges : List (Nat × Nat)) (n : Nat) : Bool :=
  ranges.any fun (first, last) => first ≤ n && n ≤ last

/-- The characters with the Unicode property of white space. -/
def isWhiteSpace (c : Char) : Bool :=
  let n := c.toNat
  (9 ≤ n && n ≤ 13) || n == 0x20 || n == 0x85 || n == 0xA0 || n == 0x1680 ||
    (0x2000 ≤ n && n ≤ 0x200A) || n == 0x2028 || n == 0x2029 || n == 0x202F || n == 0x205F ||
    n == 0x3000

/-- White space and the four information separators. -/
def isBlank (c : Char) : Bool :=
  isWhiteSpace c || (0x1C ≤ c.toNat && c.toNat ≤ 0x1F)

/-- Drop the characters of a class at both ends. -/
def trimList (p : Char → Bool) (s : List Char) : List Char :=
  ((s.dropWhile p).reverse.dropWhile p).reverse

/-- Nothing is dropped where neither end is in the class. -/
theorem trimList_eq_self {p : Char → Bool} {s : List Char} (hfirst : ∀ c ∈ s.head?, p c = false)
    (hlast : ∀ c ∈ s.getLast?, p c = false) : trimList p s = s := by
  have hdrop {t : List Char} (ht : ∀ c ∈ t.head?, p c = false) : t.dropWhile p = t := by
    cases t with
    | nil => rfl
    | cons c rest => exact List.dropWhile_cons_of_neg (by simp [ht c rfl])
  rw [trimList, hdrop hfirst, hdrop (by rwa [List.head?_reverse]), List.reverse_reverse]

/-- Drop the characters of a class at both ends. -/
def trimBy (p : Char → Bool) (s : String) : String :=
  String.ofList (trimList p s.toList)

/-- Drop the blanks at both ends. -/
def trim (s : String) : String := trimBy isBlank s

/-- A text, or nothing for the empty one. -/
def nonempty? (s : String) : Option String := if s = "" then none else some s

/-- Only texts that are not empty are kept. -/
theorem nonempty?_eq_some_iff {s t : String} : nonempty? s = some t ↔ s = t ∧ s ≠ "" := by
  by_cases h : s = "" <;> simp [nonempty?, h]

/-- Whether a character has a visible form. The space has one. -/
def isVisible (c : Char) : Bool := !inRanges hiddenRanges c.toNat

/-- The distance from a code point to its lower-case letter. -/
def lowerDistance (n : Nat) : Int :=
  match lowerRuns.find? fun (first, last, _, step) =>
      first ≤ n && n ≤ last && (n - first) % step == 0 with
  | some (_, _, distance, _) => distance
  | none => 0

/-- The lower case of one character, out of context. The dotted capital I has two characters. -/
def lowerChar (c : Char) : List Char :=
  if c.toNat < 128 then [c.toLower]
  else if c.toNat = 0x130 then ['i', '\u0307']
  else [Char.ofNat (c.toNat + lowerDistance c.toNat).toNat]

/-- The first character that is not ignored where words end has a case. -/
def meetsCased (s : List Char) : Bool :=
  match s.dropWhile fun c => inRanges caseIgnorableRanges c.toNat with
  | c :: _ => inRanges casedRanges c.toNat
  | [] => false

/-- The lower case of a text, given what stands before it, nearest first. A capital sigma at the end
of a word becomes the final one. -/
def lowerAfter : List Char → List Char → List Char
  | _, [] => []
  | before, c :: rest =>
    let lowered :=
      if c.toNat = 0x3A3 then
        if meetsCased before && !meetsCased rest then ['\u03C2'] else ['\u03C3']
      else lowerChar c
    lowered ++ lowerAfter (c :: before) rest

/-- The lower case of a text. -/
def lower (s : String) : String := String.ofList (lowerAfter [] s.toList)

/-- ASCII text is lowered letter by letter. -/
theorem lowerAfter_ascii {before s : List Char} (h : ∀ c ∈ s, c.toNat < 128) :
    lowerAfter before s = s.map Char.toLower := by
  induction s generalizing before with
  | nil => rfl
  | cons c rest ih =>
    have hc := h c (List.mem_cons_self ..)
    have hr : ∀ d ∈ rest, d.toNat < 128 := fun d hd => h d (List.mem_cons_of_mem _ hd)
    have hs : c.toNat ≠ 0x3A3 := by omega
    simp only [lowerAfter, hs, if_false, lowerChar, hc, if_true, ih hr, List.map_cons,
      List.singleton_append]

/-- Whether a text is ASCII. -/
def isAscii (s : String) : Bool := s.toList.all fun c => c.toNat < 128

end BearerSession.Text
