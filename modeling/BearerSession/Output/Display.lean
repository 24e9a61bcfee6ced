import BearerSession.Log

/-!
# Displays

What is written reaches people through two streams. Standard output takes texts as they are, if its
encoding has all their characters. What is said on standard error stands there as it is where colour
is forbidden; otherwise it is markup, in which tags in square brackets give styles to what stands
between them. How markup and tables look is up to the library that shows them. Of this library it is
assumed only that ASCII can always be shown, that a text without an opening bracket is no wrong
markup in a line that is right itself, and that whatever is shown ends its line.
-/

namespace BearerSession

/-- What a line for people is about, which decides on how it is shown. -/
inductive Tone where
  /-- It informs. -/
  | note
  /-- It confirms that something was done. -/
  | confirmation
  /-- It warns. -/
  | warning
  /-- It reports an error. -/
  | error
  /-- It tells a detail. -/
  | detail
  deriving DecidableEq, Repr

namespace Tone

/-- What stands in front of the text. A detail is told from other lines by its colour, where there
is any. -/
def label (colourless : Bool) : Tone → String
  | .warning => "Warning: "
  | .error => "Error: "
  | .detail => if colourless then "Debug: " else ""
  | .note | .confirmation => ""

/-- The style of a tone. -/
def style? : Tone → Option String
  | .note => none
  | .confirmation => some "green"
  | .warning => some "yellow"
  | .error => some "bold red"
  | .detail => some "dim"

/-- A text between the tags of a style. -/
def styled (style text : String) : String := "[" ++ style ++ "]" ++ text ++ "[/" ++ style ++ "]"

/-- The markup of a line. Where something stands in front of the text, the style is for that alone.
-/
def markup (tone : Tone) (text : String) : String :=
  match tone.style?, tone.label false with
  | some style, "" => styled style text
  | some style, label => styled style label ++ text
  | none, label => label ++ text

end Tone

/-- How the two streams show what is written to them. -/
structure Display where
  /-- Whether standard output is at a terminal. -/
  terminal : Bool
  /-- Why standard output does not take a text; none where it does. -/
  refusal? : String → Option String
  /-- A table with a title and rows, or why it cannot be shown. -/
  table : Option String → List (String × String) → Except DisplayFault String
  /-- How standard error shows markup, or what is wrong with it. -/
  console : String → Except String String
  /-- How standard error shows a record of the log. -/
  record : LogRecord → String
  /-- How standard error shows an error that nothing has handled. -/
  traceback : Raised → String
  /-- ASCII can be encoded. -/
  refusal?_ascii : ∀ text : String, (∀ c ∈ text.toList, c.toNat < 0x80) → refusal? text = none
  /-- Only a bracket in its text makes a line wrong markup. -/
  console_unmarked : ∀ (tone : Tone) (text : String), '[' ∉ text.toList →
    ∃ shown, console (tone.markup text) = .ok shown
  /-- What is shown of markup ends its line. -/
  console_line : ∀ text shown, console text = .ok shown → ∃ line, shown = line ++ "\n"
  /-- So does what is shown of an error. -/
  traceback_line : ∀ e, ∃ line, traceback e = line ++ "\n"

namespace Display

/-- How a line for people is shown, or why it cannot be. -/
def line (d : Display) (colourless : Bool) (tone : Tone) (text : String) :
    Except DisplayFault String :=
  if colourless then .ok (tone.label true ++ text ++ "\n")
  else
    match d.console (tone.markup text) with
    | .ok shown => .ok shown
    | .error report => .error (.markup report)

/-- A line without a bracket can be shown. -/
theorem line_eq_ok (d : Display) (colourless : Bool) (tone : Tone) {text : String}
    (h : '[' ∉ text.toList) : ∃ shown, d.line colourless tone text = .ok shown := by
  unfold line
  cases colourless with
  | true => exact ⟨_, rfl⟩
  | false =>
    obtain ⟨shown, hshown⟩ := d.console_unmarked tone text h
    exact ⟨shown, by simp [hshown]⟩

end Display

end BearerSession
